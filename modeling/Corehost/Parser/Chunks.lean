import Corehost.Parser.Feed

/-!
# Chunks of a stream

However a stream is cut into chunks, the parser gives the same messages up to
the cuts inside runs of text, and no character is lost:

* `mergeText` joins adjacent runs of text, and `mergeText_split` says that it
  does not see how a run was cut;
* `charStep_conserves`: the characters of the messages and those that the
  parser still holds are the characters it has read;
* `feedChunks_lossless`: both together for every stream.
-/

namespace Corehost

open Lib.Transducer

namespace Emitted

/-- A message in front of others; two runs of text become one. -/
def join (m : Emitted) : List Emitted → List Emitted
  | [] => [m]
  | m' :: ms =>
    match m.text?, m'.text? with
    | some s, some s' => m.withText (s ++ s') :: ms
    | _, _ => m :: m' :: ms

/-- The control character of a message from ground. -/
def controlChar (m : Emitted) : List Char32 :=
  match m.id, m.message.payload with
  | .carriageReturn, _ => [0x0D]
  | .lineFeed, _ => [0x0A]
  | .cursorForwardTab, _ => [0x09]
  | _, .text s => s
  | _, _ => []

/-- The characters that a message stands for: the run of text, the raw
sequence or the control character. -/
def source (m : Emitted) : List Char32 :=
  match m.text? with
  | some s => s
  | none => if m.rawSequence ≠ [] then m.rawSequence else m.controlChar

variable {m : Emitted} {s : List Char32}

@[simp] theorem withText_withText (m : Emitted) (s t : List Char32) : (m.withText s).withText t = m.withText t := rfl

theorem withText_self (h : m.text? = some s) : m.withText s = m := by
  unfold text? at h
  split at h
  · rename_i hp
    cases h
    rw [withText, ← hp]
  · simp at h

theorem join_char (h : m.text? = some s) (ch : Char32) (ms : List Emitted) :
    (m.withText [ch]).join (m.join ms) = (m.withText (ch :: s)).join ms := by
  have hch := text?_withText h [ch]
  have hcs := text?_withText h (ch :: s)
  match ms with
  | [] => simp [join, h, hch]
  | m' :: ms =>
    cases h' : m'.text? with
    | none => simp [join, h, h', hch, hcs]
    | some s' => simp [join, h, h', hch, hcs, text?_withText h]

theorem source_of_text (h : m.text? = some s) : m.source = s := by
  simp [source, h]

theorem source_of_raw (h : m.id ≠ .continueText) (hr : m.rawSequence ≠ []) : m.source = m.rawSequence := by
  simp [source, text?_of_ne h, hr]

theorem source_of_control (h : m.id ≠ .continueText) (hr : m.rawSequence = []) : m.source = m.controlChar := by
  simp [source, text?_of_ne h, hr]

theorem source_split (m : Emitted) : m.split.flatMap source = m.source := by
  cases h : m.text? with
  | none => simp [split, h]
  | some s =>
    have hch (ch : Char32) : (m.withText [ch]).source = [ch] := source_of_text (text?_withText h _)
    rw [split_of_text h, source_of_text h, List.flatMap_map]
    simp [hch]

end Emitted

/-- The messages with adjacent runs of text merged. -/
def mergeText : List Emitted → List Emitted
  | [] => []
  | m :: ms => m.join (mergeText ms)

theorem mergeText_chars {m : Emitted} (h : m.id = .continueText) (ms : List Emitted) :
    ∀ (ch : Char32) (s : List Char32),
      mergeText ((ch :: s).map (fun ch => m.withText [ch]) ++ ms) = (m.withText (ch :: s)).join (mergeText ms)
  | _, [] => rfl
  | ch, ch' :: s => by
    have htext : (m.withText (ch' :: s)).text? = some (ch' :: s) := by
      simp [Emitted.text?, Emitted.withText, h]
    rw [List.map_cons, List.cons_append, mergeText, mergeText_chars h ms ch' s]
    exact Emitted.join_char htext ch (mergeText ms)

theorem mergeText_split : ∀ {ms : List Emitted}, (∀ m ∈ ms, m.text? ≠ some []) →
    mergeText (ms.flatMap Emitted.split) = mergeText ms
  | [], _ => rfl
  | m :: ms, h => by
    obtain ⟨hm, hms⟩ := List.forall_mem_cons.mp h
    have ih := mergeText_split hms
    rw [List.flatMap_cons, mergeText, ← ih]
    match ht : m.text? with
    | none => simp [Emitted.split, ht, mergeText]
    | some [] => exact absurd ht hm
    | some (ch :: s) => rw [Emitted.split_of_text ht, mergeText_chars (Emitted.id_of_text? ht), Emitted.withText_self ht]

namespace VtParser

theorem classifyGroundChar_eq {ch : Char32} : (classifyGroundChar ch = .carriageReturn → ch = 0x0D) ∧
    (classifyGroundChar ch = .lineFeed → ch = 0x0A) ∧ (classifyGroundChar ch = .tab → ch = 0x09) := by
  unfold classifyGroundChar
  repeat' split
  all_goals simp_all

theorem controlChar_parseGroundControl (p : VtParser) {ch : Char32} (hid : (p.parseGroundControl ch).1 ≠ .continue_)
    (raw : List Char32) :
    Emitted.controlChar ⟨(p.parseGroundControl ch).1, (p.parseGroundControl ch).2.msg, raw⟩ = [ch] := by
  obtain ⟨hcr, hlf, htab⟩ := @classifyGroundChar_eq ch
  unfold parseGroundControl at hid ⊢
  generalize classifyGroundChar ch = kind at hid hcr hlf htab ⊢
  cases kind <;> simp_all [controlIdFromGroundKind, Emitted.controlChar]

/-- The characters of the messages and the held ones are those that were read. -/
theorem charStep_conserves (p : VtParser) (ch : Char32) (h : Steady p) :
    (charStep p ch).1.flatMap Emitted.source ++ (charStep p ch).2.raw = p.raw ++ [ch] := by
  by_cases hm : p.mode = .ground
  · have hraw := h.ground hm
    cases hch : isC0OrDel ch
    · have hadv : p.advance ch = (.continueText, { p with msg := { p.msg with payload := .text [ch] } }) := by
        rw [advance, if_pos hm, if_neg (by simp [hch])]
      simp [charStep, hadv, reset, hraw, Emitted.source, Emitted.text?]
    · have hadv : p.advance ch = p.parseGroundControl ch := by rw [advance, if_pos hm, if_pos hch]
      rw [charStep, hadv]
      dsimp only
      split
      · rename_i hid
        rw [(h.parseGroundControl_continue hm hid).1, hraw]
        rfl
      · rename_i hid
        obtain ⟨hne, hnil, -⟩ := h.parseGroundControl_message hm hid
        have hc := controlChar_parseGroundControl p hid []
        rw [rawSequence_of_raw_nil hnil, List.flatMap_singleton, Emitted.source_of_control hne rfl, hc, hraw]
        rfl
  · have hadv : p.advance ch = p.parseSequenceChar ch := by rw [advance, if_neg hm]
    obtain ⟨h1, -, -, -, h5⟩ := parseSequenceChar_steps h.seqStart hm ch
    have hseq := h.rawSequence_eq hm ch
    rw [charStep, hadv]
    dsimp only
    split
    · simpa using h1
    · rw [hseq, List.flatMap_singleton, Emitted.source_of_raw h5 (by simp)]
      simp [reset]

/-- Every way of cutting a stream into chunks gives the same messages, with
adjacent runs of text merged. When the parser is in ground at the end, the
messages stand for exactly the characters of the stream. -/
theorem feedChunks_lossless (chunks : List (List Char32)) :
    mergeText (feedChunks {} chunks).1 = mergeText (feed {} chunks.flatten).1 ∧
      ((feedChunks {} chunks).2.inGround = true →
        (feedChunks {} chunks).1.flatMap Emitted.source = chunks.flatten) := by
  obtain ⟨hout, hstate⟩ := runChunks_of_agrees feed_agrees chunks steady_new
  have hone := feed_agrees.output {} chunks.flatten steady_new
  have hmany := feedChunks_text_ne chunks steady_new
  have hfeed := feedLoop_text_ne chunks.flatten.length steady_new le_rfl
  refine ⟨?_, fun hg => ?_⟩
  · calc mergeText (feedChunks {} chunks).1
        = mergeText ((feedChunks {} chunks).1.flatMap Emitted.split) := (mergeText_split hmany).symm
      _ = mergeText ((feed {} chunks.flatten).1.flatMap Emitted.split) := congrArg mergeText (hout.trans hone.symm)
      _ = mergeText (feed {} chunks.flatten).1 := mergeText_split hfeed
  · have hsteady := run_inv feed_agrees.inv chunks.flatten steady_new
    have hraw : (run charStep {} chunks.flatten).2.raw = [] := by
      apply hsteady.ground
      rw [← hstate]
      exact of_decide_eq_true hg
    have hcons := run_conserves Emitted.source (fun ch => [ch]) VtParser.raw
      feed_agrees.inv charStep_conserves chunks.flatten steady_new
    have hsplit : (feedChunks {} chunks).1.flatMap Emitted.source =
        ((feedChunks {} chunks).1.flatMap Emitted.split).flatMap Emitted.source := by
      rw [List.flatMap_assoc]
      exact List.flatMap_congr fun m _ => (Emitted.source_split m).symm
    rw [hraw, List.append_nil] at hcons
    rw [hsplit, feedChunks, hout, hcons]
    simp

theorem feedChunks_lossless_cursorUp :
    (feedChunks {} [[0x61], [0x62, 0x1B], [0x5B], [0x41, 0x0D]]).1.flatMap Emitted.source =
      [0x61, 0x62, 0x1B, 0x5B, 0x41, 0x0D] :=
  (feedChunks_lossless [[0x61], [0x62, 0x1B], [0x5B], [0x41, 0x0D]]).2 (by decide)

end VtParser

end Corehost
