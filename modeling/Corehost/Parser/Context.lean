import Corehost.Parser.Feed

/-!
# What a parser remembers of earlier sequences

Parsers that are `Alike` give the same messages for every later stream. In
ground this leaves one way in which an earlier sequence can be noticed: the
intermediate character, which `reset` does not clear.

* `Alike.feedChunks`: the OSC accumulators and the CSI parameters of an earlier
  sequence do not matter;
* `Reading`: a scanner that says where in a sequence a stream stops and whether
  an `ESC (` in it still waits for its final character;
* `sameMessages_iff_closed`: a parser between two messages behaves like a new
  one exactly when no `ESC (` is left open.
-/

namespace Corehost

open Lib.Transducer

namespace VtParser

/-- The parsers agree on what decides the later messages. The OSC accumulators
are written only, and `ESC [` resets the CSI parameters. -/
structure Alike (p q : VtParser) : Prop where
  mode : p.mode = q.mode
  raw : p.raw = q.raw
  seqStart : p.seqStart = q.seqStart
  msg : p.msg = q.msg
  intermediate : p.csi.intermediate = q.csi.intermediate
  csi : p.mode = .csi → p.csi = q.csi

/-- The same message, and parsers that agree after it. -/
structure SameStep {α : Type} (r r' : α × VtParser) : Prop where
  result : r.1 = r'.1
  alike : Alike r.2 r'.2

variable {p q : VtParser}

theorem Alike.finishSeq (h : Alike p q) (hm : p.mode = .ground) (id : VtMessageId) :
    SameStep (finishSeq p id) (finishSeq q id) := by
  obtain ⟨h1, h2, h3, h4, h5, -⟩ := h
  unfold VtParser.finishSeq
  split
  · exact ⟨rfl, h1, h2, rfl, by simp [setUnknownSequence, h2, h3, h4], h5, fun hc => by simp [setUnknownSequence, hm] at hc⟩
  · exact ⟨rfl, h1, h2, rfl, h4, h5, fun hc => by simp [hm] at hc⟩

/-- An illegal character: the sequence is handed over as text. -/
theorem Alike.unknown (h : Alike p q) (c c' : CsiParams) (o o' : OscParams)
    (hc : c.intermediate = c'.intermediate) :
    SameStep (VtMessageId.unknownSequence, { p.setUnknownSequence p.seqStart with mode := .ground, csi := c, osc := o })
      (VtMessageId.unknownSequence, { q.setUnknownSequence q.seqStart with mode := .ground, csi := c', osc := o' }) := by
  obtain ⟨h1, h2, h3, h4, h5, -⟩ := h
  exact ⟨rfl, rfl, h2, h3, by simp [setUnknownSequence, h2, h3, h4], hc, nofun⟩

theorem Alike.parseEsc (h : Alike p q) (ch : Char32) : SameStep (p.parseEsc ch) (q.parseEsc ch) := by
  have h' := h
  obtain ⟨h1, h2, h3, h4, h5, -⟩ := h'
  rw [VtParser.parseEsc, VtParser.parseEsc]
  by_cases c1 : isC0OrDel ch = true
  · rw [if_pos c1, if_pos c1]
    exact h.unknown p.csi q.csi p.osc q.osc h5
  rw [if_neg c1, if_neg c1]
  by_cases c2 : ch = 0x5B
  · rw [if_pos c2, if_pos c2]
    exact ⟨rfl, rfl, h2, h3, h4, rfl, fun _ => rfl⟩
  rw [if_neg c2, if_neg c2]
  by_cases c3 : ch = 0x5D
  · rw [if_pos c3, if_pos c3]
    exact ⟨rfl, rfl, h2, h3, h4, h5, nofun⟩
  rw [if_neg c3, if_neg c3]
  by_cases c4 : ch = 0x4F
  · rw [if_pos c4, if_pos c4]
    exact ⟨rfl, rfl, h2, h3, h4, h5, nofun⟩
  rw [if_neg c4, if_neg c4]
  by_cases c5 : ch = 0x28
  · rw [if_pos c5, if_pos c5]
    exact ⟨rfl, h1, h2, h3, h4, rfl, fun hm => by rw [h.csi hm]⟩
  rw [if_neg c5, if_neg c5]
  dsimp only
  rw [← h5]
  by_cases c6 : p.csi.intermediate = 0x28
  · rw [if_pos c6, if_pos c6]
    apply Alike.finishSeq
    · exact ⟨rfl, h2, h3, h4, rfl, nofun⟩
    · rfl
  rw [if_neg c6, if_neg c6]
  by_cases c7 : p.csi.intermediate = 0
  · rw [if_neg (not_not.mpr c7), if_neg (not_not.mpr c7)]
    apply Alike.finishSeq
    · exact ⟨rfl, h2, h3, h4, h5, nofun⟩
    · rfl
  · rw [if_pos c7, if_pos c7]
    exact h.unknown { p.csi with intermediate := 0 } { q.csi with intermediate := 0 } p.osc q.osc rfl

theorem Alike.parseOscEnd (h : Alike p q) : SameStep p.parseOscEnd q.parseOscEnd := by
  obtain ⟨-, h2, h3, h4, h5, -⟩ := h
  rw [VtParser.parseOscEnd, VtParser.parseOscEnd, h2, h3, h4]
  apply Alike.finishSeq
  · exact ⟨rfl, rfl, rfl, rfl, h5, nofun⟩
  · rfl

/-- A character of an OSC sequence is stored, or it is not. -/
theorem parseOsc_store (p : VtParser) {ch : Char32} (hch : isC0OrDel ch = false) :
    ∃ o, p.parseOsc ch = (.continue_, { p with osc := o }) := by
  rw [VtParser.parseOsc, if_neg (by simp [hch])]
  split
  · split
    · exact ⟨_, rfl⟩
    · split
      · exact ⟨_, rfl⟩
      · exact ⟨p.osc, rfl⟩
  · split
    · exact ⟨_, rfl⟩
    · exact ⟨p.osc, rfl⟩

theorem Alike.parseOsc (h : Alike p q) (ch : Char32) : SameStep (p.parseOsc ch) (q.parseOsc ch) := by
  have h' := h
  obtain ⟨h1, h2, h3, h4, h5, h6⟩ := h'
  cases c1 : isC0OrDel ch
  · obtain ⟨o, ho⟩ := parseOsc_store p c1
    obtain ⟨o', ho'⟩ := parseOsc_store q c1
    rw [ho, ho']
    exact ⟨rfl, h1, h2, h3, h4, h5, h6⟩
  · rw [VtParser.parseOsc, VtParser.parseOsc, if_pos c1, if_pos c1]
    by_cases c2 : ch = 0x07
    · rw [if_pos c2, if_pos c2]
      exact h.parseOscEnd
    rw [if_neg c2, if_neg c2]
    by_cases c3 : ch = 0x1B
    · rw [if_pos c3, if_pos c3]
      exact ⟨rfl, rfl, h2, h3, h4, h5, nofun⟩
    · rw [if_neg c3, if_neg c3]
      exact h.unknown p.csi q.csi _ _ h5

theorem Alike.parseCsi (h : Alike p q) (hm : p.mode = .csi) (ch : Char32) : SameStep (p.parseCsi ch) (q.parseCsi ch) := by
  have h' := h
  obtain ⟨h1, h2, h3, h4, -, h6⟩ := h'
  have going (c : CsiParams) : SameStep (VtMessageId.continue_, { p with csi := c }) (.continue_, { q with csi := c }) :=
    ⟨rfl, h1, h2, h3, h4, rfl, fun _ => rfl⟩
  rw [VtParser.parseCsi, VtParser.parseCsi, ← h6 hm]
  cases classifyCsiChar ch with
  | control => exact h.unknown {} {} p.osc q.osc rfl
  | digit => exact going _
  | semicolon => exact going _
  | privateMarker => exact going _
  | intermediate => exact going _
  | final =>
    rw [h4]
    apply Alike.finishSeq
    · exact ⟨rfl, h2, h3, rfl, rfl, nofun⟩
    · rfl
  | invalid => exact h.unknown {} {} p.osc q.osc rfl

theorem Alike.parseSs3 (h : Alike p q) (ch : Char32) : SameStep (p.parseSs3 ch) (q.parseSs3 ch) := by
  have h' := h
  obtain ⟨h1, h2, h3, h4, h5, -⟩ := h'
  unfold VtParser.parseSs3
  split
  · exact h.unknown p.csi q.csi p.osc q.osc h5
  · split
    · apply Alike.finishSeq
      · exact ⟨rfl, h2, h3, h4, h5, nofun⟩
      · rfl
    · exact h.unknown p.csi q.csi p.osc q.osc h5

theorem Alike.parseOscSt (h : Alike p q) (ch : Char32) : SameStep (p.parseOscSt ch) (q.parseOscSt ch) := by
  have h' := h
  obtain ⟨h1, h2, h3, h4, h5, -⟩ := h'
  unfold VtParser.parseOscSt
  split
  · exact h.parseOscEnd
  · apply Alike.parseEsc
    exact ⟨rfl, h2, h3, h4, h5, nofun⟩

theorem Alike.parseSequenceChar (h : Alike p q) (ch : Char32) :
    SameStep (p.parseSequenceChar ch) (q.parseSequenceChar ch) := by
  have hraw : Alike { p with raw := p.raw ++ [ch] } { q with raw := q.raw ++ [ch] } :=
    ⟨h.mode, congrArg (· ++ [ch]) h.raw, h.seqStart, h.msg, h.intermediate, h.csi⟩
  rw [VtParser.parseSequenceChar, VtParser.parseSequenceChar]
  dsimp only
  rw [← h.mode] at hraw ⊢
  split
  · exact ⟨rfl, hraw⟩
  · exact hraw.parseEsc ch
  · apply hraw.parseCsi; assumption
  · exact hraw.parseOsc ch
  · exact hraw.parseOscSt ch
  · exact hraw.parseSs3 ch

theorem Alike.makeResult (h : Alike p q) (id : VtMessageId) (n : Nat) : p.makeResult id n = q.makeResult id n := by
  rw [VtParser.makeResult, VtParser.makeResult, VtParser.rawSequence, VtParser.rawSequence, h.raw, h.seqStart, h.msg]

theorem Alike.parseLoop : ∀ {p q : VtParser} (i : Nat) (input : List Char32), Alike p q →
    SameStep (p.parseLoop i input) (q.parseLoop i input)
  | _, _, i, [], h => ⟨rfl, h⟩
  | p, q, i, ch :: input, h => by
    obtain ⟨hr, ha⟩ := h.parseSequenceChar ch
    rw [VtParser.parseLoop, VtParser.parseLoop]
    dsimp only
    rw [← hr]
    split
    · exact ⟨ha.makeResult _ _, ha⟩
    · exact Alike.parseLoop (i + 1) input ha

theorem Alike.parseGroundControl (h : Alike p q) (ch : Char32) :
    SameStep (p.parseGroundControl ch) (q.parseGroundControl ch) := by
  obtain ⟨h1, h2, h3, h4, h5, h6⟩ := h
  unfold VtParser.parseGroundControl
  dsimp only
  rw [h2, h4]
  split
  · exact ⟨rfl, rfl, rfl, rfl, rfl, h5, nofun⟩
  · split
    · exact ⟨rfl, h1, rfl, h3, rfl, h5, h6⟩
    · split
      · exact ⟨rfl, h1, rfl, h3, rfl, h5, h6⟩
      · by_cases hb : classifyGroundChar ch = .backspace
        · rw [if_pos hb, if_pos hb]
          exact ⟨rfl, h1, rfl, h3, rfl, h5, h6⟩
        · rw [if_neg hb, if_neg hb]
          exact ⟨rfl, h1, h2, h3, by rw [h4], h5, h6⟩

theorem Alike.parse (h : Alike p q) (input : List Char32) : SameStep (p.parse input) (q.parse input) := by
  match input with
  | [] => exact ⟨rfl, h⟩
  | ch :: rest =>
    rw [VtParser.parse, VtParser.parse]
    by_cases hm : p.mode = .ground
    · have hc := h.parseGroundControl ch
      rw [if_pos hm, if_pos (h.mode.symm.trans hm)]
      dsimp only
      by_cases hrun : directGroundTextRunLength (ch :: rest) ≠ 0
      · rw [if_pos hrun, if_pos hrun]
        have ht (s : List Char32) : Alike { p with msg := { p.msg with payload := .text s } }
            { q with msg := { q.msg with payload := .text s } } :=
          ⟨h.mode, h.raw, h.seqStart, by rw [h.msg], h.intermediate, h.csi⟩
        exact ⟨(ht _).makeResult .continueText _, ht _⟩
      · rw [if_neg hrun, if_neg hrun, ← hc.result]
        split
        · exact ⟨hc.alike.makeResult _ _, hc.alike⟩
        · exact hc.alike.parseLoop 1 rest
    · rw [if_neg hm, if_neg fun hq => hm (h.mode.trans hq)]
      exact h.parseLoop 0 (ch :: rest)

theorem Alike.reset (h : Alike p q) : Alike p.reset q.reset := ⟨rfl, rfl, rfl, rfl, h.intermediate, nofun⟩

theorem Alike.feedLoop : ∀ (n : Nat) {p q : VtParser} (input : List Char32), Alike p q →
    SameStep (p.feedLoop n input) (q.feedLoop n input)
  | 0, _, _, _, h => ⟨rfl, h⟩
  | n + 1, _, _, [], h => ⟨rfl, h⟩
  | n + 1, p, q, ch :: rest, h => by
    obtain ⟨hr, ha⟩ := h.parse (ch :: rest)
    rw [feedLoop_cons, feedLoop_cons, ← hr]
    split
    · exact Alike.feedLoop n _ ha
    · obtain ⟨h1, h2⟩ := Alike.feedLoop n ((ch :: rest).drop (p.parse (ch :: rest)).1.consumed) ha.reset
      exact ⟨by rw [h1], h2⟩

/-- Parsers that agree on their essence give the same messages for every later stream. -/
theorem Alike.feedChunks : ∀ {p q : VtParser} (chunks : List (List Char32)), Alike p q →
    SameStep (p.feedChunks chunks) (q.feedChunks chunks)
  | _, _, [], h => ⟨rfl, h⟩
  | _, _, c :: cs, h => by
    obtain ⟨h1, h2⟩ := h.feedLoop c.length c
    obtain ⟨h3, h4⟩ := Alike.feedChunks cs h2
    exact ⟨congrArg₂ (· ++ ·) h1 h3, h4⟩

end VtParser

/-! ## Open designations -/

/-- The parts of a stream between which a character can stand. -/
inductive Place where
  | text | escape | controlSequence | string | stringEscape | shift
deriving DecidableEq, Repr

/-- Where a stream stops, and whether an `ESC (` in it still waits for its final character. -/
structure Reading where
  place : Place := .text
  waiting : Bool := false
deriving DecidableEq, Repr

namespace Reading

/-- A character after ESC. Control characters and the starts of strings and of
shifts leave a waiting `ESC (` as it is. -/
def escape (r : Reading) (ch : Char32) : Reading :=
  if isC0OrDel ch then { r with place := .text }
  else if ch = 0x5B then ⟨.controlSequence, false⟩
  else if ch = 0x5D then { r with place := .string }
  else if ch = 0x4F then { r with place := .shift }
  else if ch = 0x28 then ⟨.escape, true⟩
  else ⟨.text, false⟩

def next (r : Reading) (ch : Char32) : Reading :=
  match r.place with
  | .text => if ch = 0x1B then { r with place := .escape } else r
  | .escape => r.escape ch
  | .controlSequence =>
    if classifyCsiChar ch ∈ [.digit, .semicolon, .privateMarker, .intermediate] then r else { r with place := .text }
  | .string =>
    if isC0OrDel ch then { r with place := if ch = 0x1B then .stringEscape else .text } else r
  | .stringEscape => if ch = 0x5C then { r with place := .text } else r.escape ch
  | .shift => { r with place := .text }

end Reading

/-- A stream in which an `ESC (` was interrupted and no later sequence has taken its place. -/
def designationOpen (stream : List Char32) : Bool := (stream.foldl Reading.next {}).waiting

namespace VtParser

def place : ParserMode → Place
  | .ground => .text
  | .esc => .escape
  | .csi => .controlSequence
  | .osc => .string
  | .oscSt => .stringEscape
  | .ss3 => .shift

/-- The scanner follows the parser. -/
structure Tracks (p : VtParser) (r : Reading) : Prop where
  place : r.place = place p.mode
  csi : p.mode = .csi → r.waiting = false
  intermediate : p.mode ≠ .csi → p.csi.intermediate = if r.waiting then 0x28 else 0

variable {p : VtParser} {r : Reading}

theorem Tracks.finishSeq (h : Tracks p r) (id : VtMessageId) : Tracks (finishSeq p id).2 r := by
  obtain ⟨h1, h2, h3⟩ := h
  unfold VtParser.finishSeq
  split
  · exact ⟨h1, h2, h3⟩
  · exact ⟨h1, h2, h3⟩

theorem Tracks.reset (h : Tracks p r) (hm : p.mode = .ground) : Tracks p.reset r := by
  obtain ⟨h1, -, h3⟩ := h
  rw [hm] at h1
  exact ⟨h1, nofun, fun _ => h3 (by simp [hm])⟩

theorem tracks_parseEsc (hm : p.mode = .esc) (hi : p.csi.intermediate = if r.waiting then 0x28 else 0) (ch : Char32) :
    Tracks (p.parseEsc ch).2 (r.escape ch) := by
  rw [VtParser.parseEsc, Reading.escape]
  by_cases c1 : isC0OrDel ch = true
  · rw [if_pos c1, if_pos c1]
    exact ⟨rfl, nofun, fun _ => hi⟩
  rw [if_neg c1, if_neg c1]
  by_cases c2 : ch = 0x5B
  · rw [if_pos c2, if_pos c2]
    exact ⟨rfl, fun _ => rfl, fun h => absurd rfl h⟩
  rw [if_neg c2, if_neg c2]
  by_cases c3 : ch = 0x5D
  · rw [if_pos c3, if_pos c3]
    exact ⟨rfl, nofun, fun _ => hi⟩
  rw [if_neg c3, if_neg c3]
  by_cases c4 : ch = 0x4F
  · rw [if_pos c4, if_pos c4]
    exact ⟨rfl, nofun, fun _ => hi⟩
  rw [if_neg c4, if_neg c4]
  by_cases c5 : ch = 0x28
  · rw [if_pos c5, if_pos c5]
    exact ⟨by simp [hm, VtParser.place], by simp [hm], fun _ => rfl⟩
  rw [if_neg c5, if_neg c5]
  dsimp only
  split
  · apply Tracks.finishSeq
    exact ⟨rfl, nofun, fun _ => rfl⟩
  · rename_i c6
    cases hw : r.waiting
    · have h0 : p.csi.intermediate = 0 := by simpa [hw] using hi
      rw [if_neg (not_not.mpr h0)]
      apply Tracks.finishSeq
      exact ⟨rfl, nofun, fun _ => h0⟩
    · exact absurd (by simpa [hw] using hi) c6

theorem Tracks.parseEsc (h : Tracks p r) (hm : p.mode = .esc) (ch : Char32) : Tracks (p.parseEsc ch).2 (r.next ch) := by
  have hn : r.next ch = r.escape ch := by simp [Reading.next, h.place, hm, VtParser.place]
  rw [hn]
  exact tracks_parseEsc hm (h.intermediate (by simp [hm])) ch

theorem Tracks.parseOscEnd (h : Tracks p r) (hm : p.mode ≠ .csi) : Tracks p.parseOscEnd.2 { r with place := .text } := by
  apply Tracks.finishSeq
  exact ⟨rfl, nofun, fun _ => h.intermediate hm⟩

theorem Tracks.parseCsi (h : Tracks p r) (hm : p.mode = .csi) (ch : Char32) : Tracks (p.parseCsi ch).2 (r.next ch) := by
  have hw := h.csi hm
  have going (c : CsiParams) : Tracks { p with csi := c } r := ⟨h.place, h.csi, fun hn => absurd hm hn⟩
  have out (q : VtParser) (hq : q.mode = .ground) (hc : q.csi = {}) : Tracks q { r with place := .text } :=
    ⟨by rw [hq]; rfl, fun _ => hw, fun _ => by rw [hc, hw]; rfl⟩
  have hn : r.next ch = if classifyCsiChar ch ∈ [.digit, .semicolon, .privateMarker, .intermediate] then r
      else { r with place := .text } := by
    simp only [Reading.next, h.place, hm, VtParser.place]
  rw [VtParser.parseCsi, hn]
  cases classifyCsiChar ch with
  | control => exact out _ rfl rfl
  | digit => exact going _
  | semicolon => exact going _
  | privateMarker => exact going _
  | intermediate => exact going _
  | final =>
    apply Tracks.finishSeq
    exact out _ rfl rfl
  | invalid => exact out _ rfl rfl

theorem Tracks.parseOsc (h : Tracks p r) (hm : p.mode = .osc) (ch : Char32) : Tracks (p.parseOsc ch).2 (r.next ch) := by
  have hi := h.intermediate (by simp [hm])
  rw [Reading.next, h.place, hm]
  dsimp only [VtParser.place]
  cases hch : isC0OrDel ch
  · obtain ⟨o, ho⟩ := parseOsc_store p hch
    rw [ho]
    exact ⟨h.place, h.csi, h.intermediate⟩
  · rw [VtParser.parseOsc, if_pos hch]
    by_cases c2 : ch = 0x07
    · rw [if_pos c2, c2]
      exact h.parseOscEnd (by simp [hm])
    rw [if_neg c2]
    by_cases c3 : ch = 0x1B
    · rw [if_pos c3, c3]
      exact ⟨rfl, nofun, fun _ => hi⟩
    · rw [if_neg c3]
      simp only [c3, if_true, if_false]
      exact ⟨rfl, nofun, fun _ => hi⟩

theorem Tracks.parseOscSt (h : Tracks p r) (hm : p.mode = .oscSt) (ch : Char32) : Tracks (p.parseOscSt ch).2 (r.next ch) := by
  have hne : p.mode ≠ .csi := by simp [hm]
  rw [VtParser.parseOscSt, Reading.next, h.place, hm]
  dsimp only [VtParser.place]
  split
  · exact h.parseOscEnd hne
  · exact tracks_parseEsc (p := { p with mode := .esc }) rfl (h.intermediate hne) ch

theorem Tracks.parseSs3 (h : Tracks p r) (hm : p.mode = .ss3) (ch : Char32) : Tracks (p.parseSs3 ch).2 (r.next ch) := by
  have hi := h.intermediate (by simp [hm])
  rw [VtParser.parseSs3, Reading.next, h.place, hm]
  dsimp only [VtParser.place]
  split
  · exact ⟨rfl, nofun, fun _ => hi⟩
  · split
    · apply Tracks.finishSeq
      exact ⟨rfl, nofun, fun _ => hi⟩
    · exact ⟨rfl, nofun, fun _ => hi⟩

theorem Tracks.parseSequenceChar (h : Tracks p r) (hm : p.mode ≠ .ground) (ch : Char32) :
    Tracks (p.parseSequenceChar ch).2 (r.next ch) := by
  have hraw : Tracks { p with raw := p.raw ++ [ch] } r := ⟨h.place, h.csi, h.intermediate⟩
  rw [VtParser.parseSequenceChar]
  dsimp only
  split
  · contradiction
  · apply hraw.parseEsc; assumption
  · apply hraw.parseCsi; assumption
  · apply hraw.parseOsc; assumption
  · apply hraw.parseOscSt; assumption
  · apply hraw.parseSs3; assumption

theorem Tracks.parseGroundControl (h : Tracks p r) (hm : p.mode = .ground) {ch : Char32} (hch : isC0OrDel ch = true) :
    Tracks (p.parseGroundControl ch).2 (r.next ch) := by
  have hi := h.intermediate (by simp [hm])
  rw [Reading.next, h.place, hm]
  dsimp only [VtParser.place]
  by_cases hk : classifyGroundChar ch = .esc
  · rw [if_pos (classifyGroundChar_esc hk), VtParser.parseGroundControl, if_pos hk]
    exact ⟨rfl, fun hcsi => absurd hcsi (ParserMode.noConfusion ·), fun _ => hi⟩
  · have hne : ch ≠ 0x1B := by
      rintro rfl
      exact hk (by decide)
    obtain ⟨h1, h2, h3⟩ := h
    rw [if_neg hne, VtParser.parseGroundControl, if_neg hk]
    dsimp only
    split
    · exact ⟨h1, h2, h3⟩
    · split
      · exact ⟨h1, h2, h3⟩
      · split <;> exact ⟨h1, h2, h3⟩

/-- The scanner keeps following the parser. -/
theorem Tracks.next (h : Tracks p r) (hs : Steady p) (ch : Char32) : Tracks (charStep p ch).2 (r.next ch) := by
  rw [charStep, advance]
  by_cases hm : p.mode = .ground
  · rw [if_pos hm]
    cases hch : isC0OrDel ch
    · have hne : ch ≠ 0x1B := by
        rintro rfl
        simp [isC0OrDel] at hch
      have hn : r.next ch = r := by simp [Reading.next, h.place, hm, VtParser.place, hne]
      rw [hn]
      apply Tracks.reset
      · exact ⟨h.place, h.csi, h.intermediate⟩
      · exact hm
    · have hg := h.parseGroundControl hm hch
      rw [if_pos rfl]
      dsimp only
      split
      · exact hg
      · rename_i hid
        exact hg.reset (hs.parseGroundControl_message hm hid).2.2
  · have hq := h.parseSequenceChar hm ch
    rw [if_neg hm]
    dsimp only
    split
    · exact hq
    · rename_i hid
      exact hq.reset ((parseSequenceChar_steps hs.seqStart hm ch).ground hid)

theorem Tracks.run : ∀ {p : VtParser} {r : Reading} (stream : List Char32), Tracks p r → Steady p →
    Tracks (run charStep p stream).2 (stream.foldl Reading.next r)
  | _, _, [], h, _ => h
  | _, _, ch :: stream, h, hs => Tracks.run stream (h.next hs ch) (hs.next ch)

theorem tracks_feedChunks (chunks : List (List Char32)) :
    Tracks (feedChunks {} chunks).2 (chunks.flatten.foldl Reading.next {}) := by
  rw [feedChunks, (runChunks_of_agrees feed_agrees chunks steady_new).2]
  exact Tracks.run chunks.flatten ⟨rfl, fun hcsi => absurd hcsi (by decide), fun _ => rfl⟩ steady_new

theorem steady_feedChunks (chunks : List (List Char32)) : Steady (feedChunks {} chunks).2 := by
  rw [feedChunks, (runChunks_of_agrees feed_agrees chunks steady_new).2]
  exact run_inv feed_agrees.inv chunks.flatten steady_new

/-- Between two messages only the intermediate character tells parsers apart. -/
theorem Steady.alike (h : Steady p) (hm : p.mode = .ground) {c : CsiParams} (hi : p.csi.intermediate = c.intermediate) :
    Alike p { csi := c } :=
  ⟨hm, h.ground hm, h.seqStart, h.msg, hi, by simp [hm]⟩

/-- After a stream that ends between two messages, the parser gives the
messages of a new one for every later stream exactly when the stream leaves no
`ESC (` open. -/
theorem sameMessages_iff_closed (chunks : List (List Char32)) (hg : (feedChunks {} chunks).2.inGround = true) :
    (∀ later, (feedChunks (feedChunks {} chunks).2 later).1 = (feedChunks {} later).1) ↔
      designationOpen chunks.flatten = false := by
  have hm : (feedChunks {} chunks).2.mode = .ground := of_decide_eq_true hg
  have hs := steady_feedChunks chunks
  have hi := (tracks_feedChunks chunks).intermediate (by rw [hm]; decide)
  rw [designationOpen]
  generalize (chunks.flatten.foldl Reading.next {}).waiting = waiting at hi
  cases waiting with
  | false => simpa using fun later => (Alike.feedChunks later (hs.alike hm hi)).result
  | true =>
    refine iff_of_false (fun h => ?_) (by decide)
    have hopen := (Alike.feedChunks [[0x1B, 0x37]] (hs.alike (c := { intermediate := 0x28 }) hm hi)).result
    rw [h] at hopen
    exact absurd hopen (by decide)

/-- `ESC (` interrupted by BEL: `ESC 7` is no longer understood. -/
theorem sameMessages_not_after_bel :
    ∃ stream later, (feed {} stream).2.inGround = true ∧
      (feed (feed {} stream).2 later).1.map Emitted.id = [.unknownSequence] ∧
      (feed {} later).1.map Emitted.id = [.saveCursor] :=
  ⟨[0x1B, 0x28, 0x07], [0x1B, 0x37], by decide, by decide, by decide⟩

theorem sameMessages_iff_closed_charset :
    (feedChunks (feedChunks {} [[0x1B, 0x28], [0x30]]).2 [[0x1B, 0x37]]).1 = (feedChunks {} [[0x1B, 0x37]]).1 :=
  (sameMessages_iff_closed [[0x1B, 0x28], [0x30]] (by decide)).mpr (by decide) [[0x1B, 0x37]]

end VtParser

end Corehost
