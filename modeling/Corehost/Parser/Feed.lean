import Corehost.Lib.Transducer
import Corehost.Parser.Model
import Mathlib.Data.List.TakeWhile

/-!
# Feeding the parser

A caller of `vt_parser` passes a chunk to `parse`, takes the message, calls
`reset` and passes the rest of the chunk again. `feed` is this loop, and
`charStep` the transducer that reads one character at a time:

* `Steady`: the state between two characters;
* `parseLoop_eq`: the loop of `parse` over the characters of a sequence;
* `feed_agrees`: a chunk and its characters one by one give the same messages,
  except that a chunk gives a run of text as one message.
-/

namespace Corehost

open Lib Lib.Transducer

/-- A message as the caller of `parse` sees it. -/
structure Emitted where
  id : VtMessageId
  message : VtMessage
  rawSequence : List Char32
deriving DecidableEq, Repr

def VtParseResult.emitted (res : VtParseResult) : Emitted := ⟨res.id, res.message, res.rawSequence⟩

namespace Emitted

/-- The characters of a run of text. -/
def text? (m : Emitted) : Option (List Char32) :=
  match m.id, m.message.payload with
  | .continueText, .text s => some s
  | _, _ => none

def withText (m : Emitted) (s : List Char32) : Emitted := { m with message := { m.message with payload := .text s } }

/-- The messages of the single characters of a run of text. -/
def split (m : Emitted) : List Emitted :=
  match m.text? with
  | some s => s.map fun ch => m.withText [ch]
  | none => [m]

variable {m : Emitted} {s t : List Char32}

theorem text?_of_ne (h : m.id ≠ .continueText) : m.text? = none := by
  unfold text?
  split
  · contradiction
  · rfl

theorem id_of_text? (h : m.text? = some s) : m.id = .continueText := by
  by_contra hne
  simp [text?_of_ne hne] at h

theorem text?_withText (h : m.text? = some s) (t : List Char32) : (m.withText t).text? = some t := by
  simp [text?, withText, id_of_text? h]

theorem split_of_text (h : m.text? = some s) : m.split = s.map fun ch => m.withText [ch] := by
  simp [split, h]

theorem split_of_ne (h : m.id ≠ .continueText) : m.split = [m] := by
  simp [split, text?_of_ne h]

end Emitted

namespace VtParser

/-- The loop of the caller over a chunk, for at most `n` calls of `parse`. -/
def feedLoop : Nat → VtParser → List Char32 → List Emitted × VtParser
  | 0, p, _ => ([], p)
  | n + 1, p, input =>
    if input.isEmpty then ([], p)
    else
      let (res, p) := p.parse input
      if res.id = .continue_ then feedLoop n p (input.drop res.consumed)
      else
        let (msgs, p) := feedLoop n p.reset (input.drop res.consumed)
        (res.emitted :: msgs, p)

/-- The messages of a chunk. Every call of `parse` consumes a character. -/
def feed (p : VtParser) (input : List Char32) : List Emitted × VtParser := feedLoop input.length p input

/-- The messages of a stream that arrives in chunks. -/
def feedChunks (p : VtParser) (chunks : List (List Char32)) : List Emitted × VtParser := runChunks feed p chunks

/-- What `parse` does with one character. -/
def advance (p : VtParser) (ch : Char32) : VtMessageId × VtParser :=
  if p.mode = .ground then
    if isC0OrDel ch then p.parseGroundControl ch
    else (.continueText, { p with msg := { p.msg with payload := .text [ch] } })
  else p.parseSequenceChar ch

def charStep : Transducer VtParser Char32 Emitted := fun p ch =>
  let (id, p) := p.advance ch
  if id = .continue_ then ([], p) else ([⟨id, p.msg, p.rawSequence⟩], p.reset)

/-! ## One character of a sequence -/

variable {p : VtParser}

/-- What the functions that parse a character of a sequence keep, and what they
leave when they complete a message. -/
structure StepsFrom (p : VtParser) (r : VtMessageId × VtParser) : Prop where
  raw : r.2.raw = p.raw
  seqStart : r.2.seqStart = 0
  ground : r.1 ≠ .continue_ → r.2.mode = .ground
  going : r.1 = .continue_ → r.2.mode ≠ .ground ∧ r.2.msg = p.msg
  text : r.1 ≠ .continueText

theorem finishSeq_ne (p : VtParser) (id : VtMessageId) : (finishSeq p id).1 ≠ .continue_ := by
  unfold finishSeq
  split
  · simp
  · assumption

theorem finishSeq_steps {q : VtParser} (hm : q.mode = .ground) (hr : q.raw = p.raw) {id : VtMessageId}
    (hid : id ≠ .continueText) : StepsFrom p (finishSeq q id) := by
  refine ⟨?_, ?_, fun _ => ?_, fun h => absurd h (finishSeq_ne q id), ?_⟩ <;> unfold finishSeq <;> split <;>
    first | exact hr | exact hm | exact hid | rfl | simp

theorem ite_ne {α : Type} {c : Prop} [Decidable c] {a b x : α} (ha : a ≠ x) (hb : b ≠ x) : (if c then a else b) ≠ x := by
  split
  · exact ha
  · exact hb

theorem fst_ite_ne {α : Type} {c : Prop} [Decidable c] {a b : VtMessageId × α} (ha : a.1 ≠ .continueText)
    (hb : b.1 ≠ .continueText) : (if c then a else b).1 ≠ .continueText := by
  split
  · exact ha
  · exact hb

theorem dispatchEsc_ne (ch : Char32) : dispatchEsc ch ≠ .continueText := by
  unfold dispatchEsc
  repeat' apply ite_ne
  all_goals decide

theorem dispatchSs3_ne (ch : Char32) : dispatchSs3 ch ≠ .continueText := by
  unfold dispatchSs3
  repeat' apply ite_ne
  all_goals decide

theorem dispatchCharset_ne (ch : Char32) : dispatchCharset ch ≠ .continueText := by
  unfold dispatchCharset
  repeat' apply ite_ne
  all_goals decide

theorem privateMode_ne (set : Bool) (v : Int) : privateMode set v ≠ .continueText := by
  unfold privateMode
  repeat' apply ite_ne
  all_goals decide

theorem keypadKey_ne (v : Int) : keypadKey v ≠ .continueText := by
  unfold keypadKey
  repeat' apply ite_ne
  all_goals decide

theorem dispatchOsc_ne (seq : List Char32) (payload : VtPayload) : (dispatchOsc seq payload).1 ≠ .continueText := by
  unfold dispatchOsc
  split
  · dsimp only
    split
    · split
      · simp
      · repeat' apply fst_ite_ne
        all_goals simp
    · simp
  · simp

theorem dispatchCsi_ne (c : CsiParams) (ch : Char32) (msg : VtMessage) :
    (dispatchCsi c ch msg).1 ≠ .continueText := by
  have hp := privateMode_ne
  have hk := keypadKey_ne
  unfold dispatchCsi
  extract_lets priv n n msg count only
  have hcount (id : VtMessageId) (h : id ≠ .continueText) : (count id).1 ≠ .continueText := h
  repeat' apply fst_ite_ne
  all_goals first | exact hp _ _ | exact hk _ | exact hcount _ (by decide) | skip
  all_goals split <;> simp

theorem parseOscEnd_steps : StepsFrom p p.parseOscEnd := by
  apply finishSeq_steps
  · rfl
  · rfl
  · exact dispatchOsc_ne _ _

theorem parseOsc_steps (h0 : p.seqStart = 0) (hm : p.mode = .osc) (ch : Char32) : StepsFrom p (p.parseOsc ch) := by
  have hg : p.mode ≠ .ground := by simp [hm]
  unfold parseOsc
  split
  · split
    · exact parseOscEnd_steps
    · split
      · exact ⟨rfl, h0, by simp, fun _ => ⟨by simp, rfl⟩, by simp⟩
      · exact ⟨rfl, h0, fun _ => rfl, by simp, by simp⟩
  · split
    · split
      · exact ⟨rfl, h0, by simp, fun _ => ⟨hg, rfl⟩, by simp⟩
      · split <;> exact ⟨rfl, h0, by simp, fun _ => ⟨hg, rfl⟩, by simp⟩
    · split <;> exact ⟨rfl, h0, by simp, fun _ => ⟨hg, rfl⟩, by simp⟩

theorem parseCsi_steps (h0 : p.seqStart = 0) (hm : p.mode = .csi) (ch : Char32) : StepsFrom p (p.parseCsi ch) := by
  have hg : p.mode ≠ .ground := by simp [hm]
  unfold parseCsi
  cases classifyCsiChar ch with
  | control => exact ⟨rfl, h0, fun _ => rfl, by simp, by simp⟩
  | digit => exact ⟨rfl, h0, by simp, fun _ => ⟨hg, rfl⟩, by simp⟩
  | semicolon => exact ⟨rfl, h0, by simp, fun _ => ⟨hg, rfl⟩, by simp⟩
  | privateMarker => exact ⟨rfl, h0, by simp, fun _ => ⟨hg, rfl⟩, by simp⟩
  | intermediate => exact ⟨rfl, h0, by simp, fun _ => ⟨hg, rfl⟩, by simp⟩
  | final => exact finishSeq_steps (by rfl) (by rfl) (dispatchCsi_ne _ _ _)
  | invalid => exact ⟨rfl, h0, fun _ => rfl, by simp, by simp⟩

theorem parseSs3_steps (h0 : p.seqStart = 0) (ch : Char32) : StepsFrom p (p.parseSs3 ch) := by
  unfold parseSs3
  split
  · exact ⟨rfl, h0, fun _ => rfl, by simp, by simp⟩
  · split
    · exact finishSeq_steps (by rfl) (by rfl) (dispatchSs3_ne _)
    · exact ⟨rfl, h0, fun _ => rfl, by simp, by simp⟩

theorem parseEsc_steps (h0 : p.seqStart = 0) (hm : p.mode = .esc) (ch : Char32) : StepsFrom p (p.parseEsc ch) := by
  unfold parseEsc
  split
  · exact ⟨rfl, h0, fun _ => rfl, by simp, by simp⟩
  · split
    · exact ⟨rfl, h0, by simp, fun _ => ⟨by simp, rfl⟩, by simp⟩
    · split
      · exact ⟨rfl, h0, by simp, fun _ => ⟨by simp, rfl⟩, by simp⟩
      · split
        · exact ⟨rfl, h0, by simp, fun _ => ⟨by simp, rfl⟩, by simp⟩
        · split
          · exact ⟨rfl, h0, by simp, fun _ => ⟨by simp [hm], rfl⟩, by simp⟩
          · dsimp only
            split
            · exact finishSeq_steps (by rfl) (by rfl) (dispatchCharset_ne _)
            · split
              · exact ⟨rfl, h0, fun _ => rfl, by simp, by simp⟩
              · exact finishSeq_steps (by rfl) (by rfl) (dispatchEsc_ne _)

theorem parseOscSt_steps (h0 : p.seqStart = 0) (ch : Char32) : StepsFrom p (p.parseOscSt ch) := by
  unfold parseOscSt
  split
  · exact parseOscEnd_steps
  · obtain ⟨h1, h2, h3, h4, h5⟩ := @parseEsc_steps { p with mode := .esc } h0 rfl ch
    exact ⟨h1, h2, h3, h4, h5⟩

/-- A character of a sequence is appended to the raw characters. It completes a
message and leads back to ground, or it does neither. -/
theorem parseSequenceChar_steps (h0 : p.seqStart = 0) (hm : p.mode ≠ .ground) (ch : Char32) :
    StepsFrom { p with raw := p.raw ++ [ch] } (p.parseSequenceChar ch) := by
  unfold parseSequenceChar
  dsimp only
  split
  · rename_i h; exact absurd h hm
  · apply parseEsc_steps <;> assumption
  · apply parseCsi_steps <;> assumption
  · apply parseOsc_steps <;> assumption
  · apply parseOscSt_steps; assumption
  · apply parseSs3_steps; assumption

/-! ## Between two characters -/

/-- The state between two characters when every message has been followed by
`reset`: in ground there is no trace of the last sequence in the message and
the raw characters, and inside a sequence the raw characters start with ESC. -/
structure Steady (p : VtParser) : Prop where
  seqStart : p.seqStart = 0
  msg : p.msg = {}
  ground : p.mode = .ground → p.raw = []
  inside : p.mode ≠ .ground → p.raw.head? = some 0x1B

theorem steady_new : Steady {} := ⟨rfl, rfl, fun _ => rfl, fun h => absurd rfl h⟩

theorem steady_reset (p : VtParser) : Steady p.reset := ⟨rfl, rfl, fun _ => rfl, fun h => absurd rfl h⟩

theorem Steady.reset_eq (h : Steady p) (hm : p.mode = .ground) : p.reset = p := by
  obtain ⟨h1, h2, h3, -⟩ := h
  have h3 := h3 hm
  cases p
  simp_all [VtParser.reset]

theorem classifyGroundChar_esc {ch : Char32} (h : classifyGroundChar ch = .esc) : ch = 0x1B := by
  unfold classifyGroundChar at h
  repeat' split at h
  all_goals first | assumption | simp at h

theorem Steady.parseGroundControl_continue (h : Steady p) (hm : p.mode = .ground) {ch : Char32}
    (hc : (p.parseGroundControl ch).1 = .continue_) :
    (p.parseGroundControl ch).2 = { p with raw := [ch], mode := .esc } ∧ ch = 0x1B := by
  have hr := h.ground hm
  have h0 := h.seqStart
  by_cases hk : classifyGroundChar ch = .esc
  · refine ⟨?_, classifyGroundChar_esc hk⟩
    simp [parseGroundControl, hk, hr, h0]
  · exfalso
    simp only [parseGroundControl, if_neg hk] at hc
    revert hc hk
    generalize classifyGroundChar ch = kind
    cases kind <;> simp [controlIdFromGroundKind]

theorem Steady.next (h : Steady p) (ch : Char32) : Steady (charStep p ch).2 := by
  unfold VtParser.charStep
  dsimp only
  split
  · rename_i hid
    unfold advance at hid ⊢
    by_cases hm : p.mode = .ground
    · rw [if_pos hm] at hid ⊢
      split at hid
      · rename_i hch
        rw [if_pos hch]
        obtain ⟨h1, rfl⟩ := h.parseGroundControl_continue hm hid
        dsimp only
        rw [h1]
        exact ⟨h.seqStart, h.msg, by simp, fun _ => rfl⟩
      · simp at hid
    · rw [if_neg hm] at hid ⊢
      obtain ⟨h1, h2, -, h4, -⟩ := parseSequenceChar_steps h.seqStart hm ch
      obtain ⟨h5, h6⟩ := h4 hid
      refine ⟨h2, h6.trans h.msg, fun he => absurd he h5, fun _ => ?_⟩
      rw [h1]
      simp [h.inside hm]
  · exact steady_reset _

/-! ## A chunk and its characters -/

theorem directGroundTextRunLength_cons {ch : Char32} {rest : List Char32} :
    directGroundTextRunLength (ch :: rest) =
      if isC0OrDel ch then 0 else directGroundTextRunLength rest + 1 := by
  unfold directGroundTextRunLength
  cases h : isC0OrDel ch <;> simp [h]

/-- A run of text in ground, character by character. -/
theorem Steady.run_text (h : Steady p) (hm : p.mode = .ground) : ∀ {text : List Char32}, (∀ ch ∈ text, isC0OrDel ch = false) →
    run VtParser.charStep p text =
      (text.map fun ch => ⟨.continueText, { p.msg with payload := .text [ch] }, []⟩, p)
  | [], _ => rfl
  | ch :: text, ht => by
    have hch := ht ch List.mem_cons_self
    have hr := h.ground hm
    have hstep : VtParser.charStep p ch = ([⟨.continueText, { p.msg with payload := .text [ch] }, []⟩], p) := by
      have := h.reset_eq hm
      unfold VtParser.charStep advance
      rw [if_pos hm, if_neg (by simp [hch])]
      simp only [reduceCtorEq, if_false]
      refine Prod.ext ?_ (by simpa [VtParser.reset] using this)
      simp [rawSequence, hr]
    rw [run_cons, hstep, Steady.run_text h hm fun c hc => ht c (List.mem_cons_of_mem _ hc)]
    rfl

/-- The raw sequence of a message is everything since its ESC. -/
theorem Steady.rawSequence_eq (h : Steady p) (hm : p.mode ≠ .ground) (ch : Char32) :
    (p.parseSequenceChar ch).2.rawSequence = p.raw ++ [ch] := by
  obtain ⟨h1, h2, -, -, -⟩ := parseSequenceChar_steps h.seqStart hm ch
  have hin := h.inside hm
  dsimp only at h1
  obtain ⟨raw, hraw⟩ : ∃ raw, p.raw = 0x1B :: raw := by
    cases hr : p.raw with
    | nil => simp [hr] at hin
    | cons c raw => exact ⟨raw, by simp_all⟩
  rw [rawSequence, h1, h2, hraw]
  simp

/-- The loop of `parse` inside a sequence reads the characters up to the one
that completes the message. -/
theorem parseLoop_eq : ∀ {p : VtParser} (input : List Char32) (i : Nat), Steady p → p.mode ≠ .ground →
    (p.parseLoop i input = ({ id := .continue_, consumed := i + input.length }, (run charStep p input).2) ∧
      (run charStep p input).1 = []) ∨
    ∃ k < input.length, (p.parseLoop i input).1.id ≠ .continue_ ∧ (p.parseLoop i input).1.consumed = i + (k + 1) ∧
      (p.parseLoop i input).1.id ≠ .continueText ∧
      run charStep p (input.take (k + 1)) = ([(p.parseLoop i input).1.emitted], (p.parseLoop i input).2.reset)
  | p, [], i, _, _ => .inl ⟨by simp [parseLoop], rfl⟩
  | p, ch :: input, i, h, hm => by
    have hs := h.next ch
    obtain ⟨-, -, -, h4, htext⟩ := parseSequenceChar_steps h.seqStart hm ch
    have hadv : p.advance ch = p.parseSequenceChar ch := by rw [advance, if_neg hm]
    rw [parseLoop]
    by_cases hid : (p.parseSequenceChar ch).1 = .continue_
    · have hstep : charStep p ch = ([], (p.parseSequenceChar ch).2) := by
        unfold charStep
        rw [hadv]
        dsimp only
        rw [if_pos hid]
      rw [hstep] at hs
      dsimp only
      rw [if_neg (by simp [hid])]
      rcases parseLoop_eq input (i + 1) hs (h4 hid).1 with
        ⟨h5, h6⟩ | ⟨k, hk, h5, h6, h8, h7⟩
      · refine .inl ⟨?_, ?_⟩
        · rw [h5, run_cons, hstep, List.length_cons]
          simp only [Prod.mk.injEq, VtParseResult.mk.injEq, and_true, true_and]
          omega
        · rw [run_cons, hstep, h6]; rfl
      · refine .inr ⟨k + 1, by simpa using hk, h5, by rw [h6]; omega, h8, ?_⟩
        rw [List.take_succ_cons, run_cons, hstep, h7]
        rfl
    · have hstep : charStep p ch = ([⟨(p.parseSequenceChar ch).1, (p.parseSequenceChar ch).2.msg,
          (p.parseSequenceChar ch).2.rawSequence⟩], (p.parseSequenceChar ch).2.reset) := by
        unfold charStep
        rw [hadv]
        dsimp only
        rw [if_neg hid]
      refine .inr ⟨0, by simp, ?_⟩
      dsimp only
      rw [if_pos hid]
      refine ⟨by simp [makeResult, hid], by simp [makeResult, hid], ?_, ?_⟩
      · simpa [makeResult, hid] using htext
      · rw [List.take_succ_cons, List.take_zero, run_cons, hstep]
        simp [VtParseResult.emitted, makeResult, hid]

theorem feedLoop_cons (n : Nat) (p : VtParser) (ch : Char32) (rest : List Char32) :
    feedLoop (n + 1) p (ch :: rest) =
      if (p.parse (ch :: rest)).1.id = .continue_ then
        feedLoop n (p.parse (ch :: rest)).2 ((ch :: rest).drop (p.parse (ch :: rest)).1.consumed)
      else
        ((p.parse (ch :: rest)).1.emitted ::
            (feedLoop n (p.parse (ch :: rest)).2.reset ((ch :: rest).drop (p.parse (ch :: rest)).1.consumed)).1,
          (feedLoop n (p.parse (ch :: rest)).2.reset ((ch :: rest).drop (p.parse (ch :: rest)).1.consumed)).2) := rfl

/-- What one call of `parse` does: it consumes a chunk inside a sequence, or it
returns the message of the first characters, which are a run of text or
complete a message one by one. -/
inductive ParseCase (p : VtParser) (input : List Char32) : Prop
  | going (hid : (p.parse input).1.id = .continue_) (hc : (p.parse input).1.consumed = input.length)
      (hr : run charStep p input = ([], (p.parse input).2))
  | message (k : Nat) (hk : k < input.length) (hid : (p.parse input).1.id ≠ .continue_)
      (hc : (p.parse input).1.consumed = k + 1)
      (hr : run charStep p (input.take (k + 1)) = ((p.parse input).1.emitted.split, (p.parse input).2.reset))
      (hp : (p.parse input).1.emitted.text? ≠ some [])

theorem rawSequence_of_raw_nil (h : p.raw = []) : p.rawSequence = [] := by
  simp [rawSequence, h]

/-- A run of text in ground is one call of `parse`. -/
theorem Steady.parse_text (h : Steady p) (hm : p.mode = .ground) {ch : Char32} (hch : isC0OrDel ch = false)
    (rest : List Char32) : ParseCase p (ch :: rest) := by
  have hlen : directGroundTextRunLength (ch :: rest) = directGroundTextRunLength rest + 1 := by
    rw [directGroundTextRunLength_cons, hch]
    rfl
  have hle : directGroundTextRunLength rest ≤ rest.length := (List.takeWhile_prefix _).length_le
  have htext : ∀ c ∈ (ch :: rest).take (directGroundTextRunLength rest + 1), isC0OrDel c = false := by
    intro c hc
    rw [← hlen, directGroundTextRunLength, ← List.prefix_iff_eq_take.mp (List.takeWhile_prefix _)] at hc
    simpa using List.mem_takeWhile_imp hc
  have hraw : p.rawSequence = [] := rawSequence_of_raw_nil (h.ground hm)
  have hemitted : (makeResult
      { p with msg := { p.msg with payload := .text ((ch :: rest).take (directGroundTextRunLength rest + 1)) } }
      .continueText (directGroundTextRunLength rest + 1)).emitted =
        ⟨.continueText, { p.msg with payload := .text ((ch :: rest).take (directGroundTextRunLength rest + 1)) }, []⟩ := by
    simp only [makeResult, VtParseResult.emitted, reduceCtorEq, if_false, Emitted.mk.injEq, true_and]
    exact hraw
  have hparse : p.parse (ch :: rest) =
      (makeResult { p with msg := { p.msg with payload := .text ((ch :: rest).take (directGroundTextRunLength rest + 1)) } }
        .continueText (directGroundTextRunLength rest + 1),
        { p with msg := { p.msg with payload := .text ((ch :: rest).take (directGroundTextRunLength rest + 1)) } }) := by
    rw [parse, if_pos hm, hlen]
    rfl
  apply ParseCase.message (directGroundTextRunLength rest)
  · simpa using Nat.lt_succ_of_le hle
  · simp [hparse, makeResult]
  · simp [hparse, makeResult]
  · rw [hparse, h.run_text hm htext, hemitted]
    exact Prod.ext rfl (h.reset_eq hm).symm
  · rw [hparse, hemitted]
    simp [Emitted.text?]

theorem controlIdFromGroundKind_ne (kind : GroundCharKind) :
    controlIdFromGroundKind kind ≠ .continueText ∧ controlIdFromGroundKind kind ≠ .continue_ := by
  cases kind <;> decide

/-- The message of a control character in ground. -/
theorem Steady.parseGroundControl_message (h : Steady p) (hm : p.mode = .ground) {ch : Char32}
    (hc : (p.parseGroundControl ch).1 ≠ .continue_) :
    (p.parseGroundControl ch).1 ≠ .continueText ∧ (p.parseGroundControl ch).2.raw = [] ∧
      (p.parseGroundControl ch).2.mode = .ground := by
  have hr := h.ground hm
  unfold parseGroundControl at hc ⊢
  dsimp only at hc ⊢
  split at hc
  · simp at hc
  · rename_i hk
    rw [if_neg hk]
    have hne := (controlIdFromGroundKind_ne (classifyGroundChar ch)).1
    split
    · exact ⟨hne, hr, hm⟩
    · split
      · exact ⟨hne, hr, hm⟩
      · refine ⟨hne, ?_⟩
        split <;> exact ⟨hr, hm⟩

/-- A control character in ground is one call of `parse`, and ESC starts a sequence. -/
theorem Steady.parse_control (h : Steady p) (hm : p.mode = .ground) {ch : Char32} (hch : isC0OrDel ch = true)
    (rest : List Char32) : ParseCase p (ch :: rest) := by
  have hlen : directGroundTextRunLength (ch :: rest) = 0 := by
    rw [directGroundTextRunLength_cons, if_pos hch]
  have hadv : p.advance ch = p.parseGroundControl ch := by rw [advance, if_pos hm, if_pos hch]
  by_cases hid : (p.parseGroundControl ch).1 = .continue_
  · have hparse : p.parse (ch :: rest) = (p.parseGroundControl ch).2.parseLoop 1 rest := by
      rw [parse, if_pos hm, hlen]
      simp [hid]
    have hstep : charStep p ch = ([], (p.parseGroundControl ch).2) := by
      rw [charStep, hadv]
      exact if_pos hid
    have hs := h.next ch
    rw [hstep] at hs
    have hmode : (p.parseGroundControl ch).2.mode ≠ .ground := by
      rw [(h.parseGroundControl_continue hm hid).1]
      simp
    rcases parseLoop_eq rest 1 hs hmode with ⟨h1, h2⟩ | ⟨k, hk, h1, h2, h3, h4⟩
    · apply ParseCase.going
      · rw [hparse, h1]
      · rw [hparse, h1, List.length_cons, Nat.add_comm]
      · rw [run_cons, hstep, h2, hparse, h1]; rfl
    · apply ParseCase.message (k + 1)
      · simpa using hk
      · rw [hparse]; exact h1
      · rw [hparse, h2]; omega
      · rw [List.take_succ_cons, run_cons, hstep, h4, hparse, Emitted.split_of_ne h3]; rfl
      · rw [hparse]; simp [Emitted.text?_of_ne (m := VtParseResult.emitted _) h3]
  · obtain ⟨hne, hr, -⟩ := h.parseGroundControl_message hm hid
    have hparse : p.parse (ch :: rest) =
        (makeResult (p.parseGroundControl ch).2 (p.parseGroundControl ch).1 1, (p.parseGroundControl ch).2) := by
      rw [parse, if_pos hm, hlen]
      simp [hid]
    have hstep : charStep p ch = ([⟨(p.parseGroundControl ch).1, (p.parseGroundControl ch).2.msg,
        (p.parseGroundControl ch).2.rawSequence⟩], (p.parseGroundControl ch).2.reset) := by
      rw [charStep, hadv]
      exact if_neg hid
    apply ParseCase.message 0
    · simp
    · simp [hparse, makeResult, hid]
    · simp [hparse, makeResult, hid]
    · rw [List.take_succ_cons, List.take_zero, run_cons, hstep, hparse, Emitted.split_of_ne]
      · simp [VtParseResult.emitted, makeResult, hid]
      · simpa [VtParseResult.emitted, makeResult, hid] using hne
    · rw [hparse]
      rw [Emitted.text?_of_ne]
      · simp
      · simpa [VtParseResult.emitted, makeResult, hid] using hne

theorem Steady.parse_sequence (h : Steady p) (hm : p.mode ≠ .ground) (ch : Char32) (rest : List Char32) :
    ParseCase p (ch :: rest) := by
  have hparse : p.parse (ch :: rest) = p.parseLoop 0 (ch :: rest) := by rw [parse, if_neg hm]
  rcases parseLoop_eq (ch :: rest) 0 h hm with ⟨h1, h2⟩ | ⟨k, hk, h1, h2, h3, h4⟩
  · apply ParseCase.going
    · rw [hparse, h1]
    · rw [hparse, h1, Nat.zero_add]
    · rw [hparse, h1, ← h2]
  · apply ParseCase.message k hk
    · rwa [hparse]
    · rw [hparse, h2, Nat.zero_add]
    · rw [hparse, h4, Emitted.split_of_ne h3]
    · rw [hparse]; simp [Emitted.text?_of_ne (m := VtParseResult.emitted _) h3]

theorem Steady.parse_case (h : Steady p) (ch : Char32) (rest : List Char32) : ParseCase p (ch :: rest) := by
  by_cases hm : p.mode = .ground
  · cases hch : isC0OrDel ch
    · exact h.parse_text hm hch rest
    · exact h.parse_control hm hch rest
  · exact h.parse_sequence hm ch rest

/-- The loop of the caller and the characters one by one, for enough calls. -/
theorem feedLoop_eq : ∀ (n : Nat) {p : VtParser} {input : List Char32}, Steady p → input.length ≤ n →
    (feedLoop n p input).1.flatMap Emitted.split = (run charStep p input).1 ∧
      (feedLoop n p input).2 = (run charStep p input).2
  | 0, p, [], _, _ => ⟨rfl, rfl⟩
  | n + 1, p, [], _, _ => ⟨rfl, rfl⟩
  | n + 1, p, ch :: rest, h, hn => by
    rw [feedLoop_cons]
    rcases h.parse_case ch rest with ⟨hid, hc, hr⟩ | ⟨k, hk, hid, hc, hr, -⟩
    · rw [if_pos hid, hc, List.drop_length, hr]
      cases n <;> exact ⟨rfl, rfl⟩
    · have hsplit : ch :: rest = (ch :: rest).take (k + 1) ++ (ch :: rest).drop (k + 1) := (List.take_append_drop _ _).symm
      have hlen : ((ch :: rest).drop (k + 1)).length ≤ n := by
        rw [List.length_drop]
        omega
      obtain ⟨h1, h2⟩ := feedLoop_eq n (steady_reset (p.parse (ch :: rest)).2) hlen
      rw [if_neg hid, hc, List.flatMap_cons, h1, h2]
      rw [show run charStep p (ch :: rest) =
        run charStep p ((ch :: rest).take (k + 1) ++ (ch :: rest).drop (k + 1)) by rw [← hsplit], run_append, hr]
      exact ⟨rfl, rfl⟩

theorem feedLoop_text_ne : ∀ (n : Nat) {p : VtParser} {input : List Char32}, Steady p → input.length ≤ n →
    ∀ m ∈ (feedLoop n p input).1, m.text? ≠ some []
  | 0, _, [], _, _ => by simp [feedLoop]
  | n + 1, _, [], _, _ => by simp [feedLoop]
  | n + 1, p, ch :: rest, h, hn => by
    rw [feedLoop_cons]
    rcases h.parse_case ch rest with ⟨hid, hc, -⟩ | ⟨k, hk, hid, hc, -, hp⟩
    · rw [if_pos hid, hc, List.drop_length]
      cases n <;> simp [feedLoop]
    · have hlen : ((ch :: rest).drop (k + 1)).length ≤ n := by
        rw [List.length_drop]
        omega
      rw [if_neg hid, hc]
      exact List.forall_mem_cons.mpr ⟨hp, feedLoop_text_ne n (steady_reset _) hlen⟩

/-- A chunk gives the messages and the state of its characters one by one. -/
theorem feed_agrees : Agrees feed Emitted.split charStep Steady where
  state _ _ h := (feedLoop_eq _ h le_rfl).2
  output _ _ h := (feedLoop_eq _ h le_rfl).1
  inv _ ch h := h.next ch

theorem feedChunks_text_ne : ∀ {p : VtParser} (chunks : List (List Char32)), Steady p →
    ∀ m ∈ (feedChunks p chunks).1, m.text? ≠ some []
  | _, [], _ => by simp [feedChunks, runChunks]
  | p, c :: cs, h => by
    have hs : Steady (feed p c).2 := by
      rw [feed_agrees.state p c h]
      exact run_inv feed_agrees.inv c h
    intro m hm
    rcases List.mem_append.mp hm with hm | hm
    · exact feedLoop_text_ne _ h le_rfl m hm
    · exact feedChunks_text_ne cs hs m hm

/-! ## Text -/

theorem finishSeq_text_ne (p : VtParser) {id : VtMessageId} (h : id ≠ .continueText) : (finishSeq p id).1 ≠ .continueText :=
  fst_ite_ne nofun h

theorem parseEsc_text_ne (p : VtParser) (ch : Char32) : (p.parseEsc ch).1 ≠ .continueText := by
  unfold parseEsc
  refine fst_ite_ne nofun (fst_ite_ne nofun (fst_ite_ne nofun (fst_ite_ne nofun (fst_ite_ne nofun ?_))))
  exact fst_ite_ne (finishSeq_text_ne _ (dispatchCharset_ne ch)) (fst_ite_ne nofun (finishSeq_text_ne _ (dispatchEsc_ne ch)))

theorem parseSequenceChar_text_ne (p : VtParser) (ch : Char32) : (p.parseSequenceChar ch).1 ≠ .continueText := by
  have hosc (q : VtParser) : q.parseOscEnd.1 ≠ .continueText := finishSeq_text_ne _ (dispatchOsc_ne _ _)
  unfold parseSequenceChar
  dsimp only
  split
  · nofun
  · exact parseEsc_text_ne _ ch
  · unfold parseCsi
    split
    · nofun
    · nofun
    · nofun
    · nofun
    · nofun
    · exact finishSeq_text_ne _ (dispatchCsi_ne _ _ _)
    · nofun
  · unfold parseOsc
    refine fst_ite_ne (fst_ite_ne (hosc _) (fst_ite_ne nofun nofun)) ?_
    exact fst_ite_ne (fst_ite_ne nofun (fst_ite_ne nofun nofun)) (fst_ite_ne nofun nofun)
  · exact fst_ite_ne (hosc _) (parseEsc_text_ne _ ch)
  · exact fst_ite_ne nofun (fst_ite_ne (finishSeq_text_ne _ (dispatchSs3_ne ch)) nofun)

/-- Only a character of ground is text, and no control character is. -/
theorem parse_text {p : VtParser} {ch : Char32} (h : (p.parse [ch]).1.id = .continueText) : isC0OrDel ch = false := by
  by_contra hch
  rw [Bool.not_eq_false] at hch
  have hmake (q : VtParser) {id : VtMessageId} (n : Nat) (hid : id ≠ .continueText) : (q.makeResult id n).id ≠ .continueText := by
    unfold makeResult
    split <;> exact hid
  revert h
  unfold parse
  have hrun : directGroundTextRunLength [ch] = 0 := by simp [directGroundTextRunLength, hch]
  dsimp only
  split
  · rw [hrun, if_neg (not_not.mpr rfl)]
    split
    · refine hmake _ _ ?_
      unfold parseGroundControl
      dsimp only
      exact fst_ite_ne nofun (fst_ite_ne (controlIdFromGroundKind_ne _).1 (fst_ite_ne (controlIdFromGroundKind_ne _).1
        (controlIdFromGroundKind_ne _).1))
    · nofun
  · rw [parseLoop]
    dsimp only
    split
    · exact hmake _ _ (parseSequenceChar_text_ne p ch)
    · nofun

end VtParser

end Corehost
