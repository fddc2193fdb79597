import Corehost.Lib.Utf8

/-!
# Characters split over writes

The model of `join_utf8_writes` (`pipe_bridge.hpp`), which keeps the beginning
of a character at the end of a write for the next one, and of
`utf8_incomplete_tail_length` (`char_convert.hpp`), which finds it.

`JoinsUtf8` says what every number of writes of a text leaves. Main result:

* `join_utf8_writes_text`: no byte is lost, every view is a text of its own, and
  a tail is kept only inside a character.
-/

namespace Corehost

open Utf8 (encode Encoded isContinuation leadLength Shape Partial)

/-- The loop of `utf8_incomplete_tail_length`, over the bytes from the last one on. -/
def utf8IncompleteTailLoop : List UInt8 → Nat → Nat
  | [], _ => 0
  | b :: before, continuation =>
    if continuation < 3 then
      if b &&& 0xC0 = 0x80 then utf8IncompleteTailLoop before (continuation + 1)
      else
        let length := if b ≥ 0xF0 then 4 else if b ≥ 0xE0 then 3 else if b ≥ 0xC0 then 2 else 1
        if continuation + 1 < length then continuation + 1 else 0
    else 0

def utf8IncompleteTailLength (utf8 : List UInt8) : Nat := utf8IncompleteTailLoop utf8.reverse 0

/-- The buffers of `join_utf8_writes`. -/
structure Utf8Join where
  utf8Tail : List UInt8 := []
  utf8Join : List UInt8 := []
deriving DecidableEq, Repr

/-- The view that is returned, and the buffers. -/
def Utf8Join.joinUtf8Writes (j : Utf8Join) (bytes : List UInt8) : List UInt8 × Utf8Join :=
  let utf8Join := if j.utf8Tail ≠ [] then j.utf8Tail ++ bytes else j.utf8Join
  let bytes := if j.utf8Tail ≠ [] then utf8Join else bytes
  let keep := utf8IncompleteTailLength bytes
  (bytes.take (bytes.length - keep), { utf8Tail := bytes.drop (bytes.length - keep), utf8Join })

/-- The views of one write after the other, and the buffers at the end. -/
def Utf8Join.writes (j : Utf8Join) : List (List UInt8) → List (List UInt8) × Utf8Join
  | [] => ([], j)
  | bytes :: rest =>
    let (view, j') := j.joinUtf8Writes bytes
    let (views, j'') := j'.writes rest
    (view :: views, j'')

/-! ## The tail of a text -/

theorem loop_continuation {b : UInt8} {before : List UInt8} {k : Nat} (hk : k < 3) (hb : isContinuation b = true) :
    utf8IncompleteTailLoop (b :: before) k = utf8IncompleteTailLoop before (k + 1) := by
  rw [utf8IncompleteTailLoop, if_pos hk, if_pos (by simpa [isContinuation] using hb)]

theorem loop_lead {b : UInt8} {before : List UInt8} {k : Nat} (hk : k < 3) (hb : isContinuation b = false) :
    utf8IncompleteTailLoop (b :: before) k = if k + 1 < leadLength b then k + 1 else 0 := by
  rw [utf8IncompleteTailLoop, if_pos hk, if_neg (by simpa [isContinuation] using hb)]
  rfl

theorem loop_three (before : List UInt8) {k : Nat} (hk : 3 ≤ k) : utf8IncompleteTailLoop before k = 0 := by
  cases before with
  | nil => rfl
  | cons b before => rw [utf8IncompleteTailLoop, if_neg (by omega)]

/-- The loop passes at most three continuation bytes. -/
theorem loop_skip : ∀ (rest : List UInt8) {before : List UInt8} {k : Nat}, (∀ b ∈ rest, isContinuation b = true) →
    k + rest.length ≤ 3 → utf8IncompleteTailLoop (rest ++ before) k = utf8IncompleteTailLoop before (k + rest.length)
  | [], _, _, _, _ => rfl
  | b :: rest, before, k, hb, hk => by
    rw [List.length_cons] at hk ⊢
    rw [List.cons_append, loop_continuation (by omega) (hb b List.mem_cons_self),
      loop_skip rest (fun x hx => hb x (List.mem_cons_of_mem b hx)) (by omega), Nat.add_assoc, Nat.add_comm 1]

/-- The tail after a leading byte and continuation bytes. -/
theorem incompleteTail_lead (before : List UInt8) {lead : UInt8} {rest : List UInt8} (hlead : isContinuation lead = false)
    (hrest : ∀ b ∈ rest, isContinuation b = true) (hlen : rest.length ≤ 3) :
    utf8IncompleteTailLength (before ++ lead :: rest) =
      if rest.length < 3 ∧ rest.length + 1 < leadLength lead then rest.length + 1 else 0 := by
  rw [utf8IncompleteTailLength, List.reverse_append, List.reverse_cons, List.append_assoc,
    loop_skip _ (fun b hb => hrest b (List.mem_reverse.mp hb)) (by simpa using hlen), List.length_reverse, Nat.zero_add,
    List.singleton_append]
  by_cases hfull : rest.length < 3
  · rw [loop_lead hfull hlead]
    simp only [hfull, true_and]
  · rw [loop_three _ (by omega), if_neg (fun h => hfull h.1)]

/-- No tail after whole characters. -/
theorem incompleteTail_encode (cs : List Char) : utf8IncompleteTailLength (encode cs) = 0 := by
  rcases List.eq_nil_or_concat cs with rfl | ⟨ds, c, rfl⟩
  · rfl
  · obtain ⟨lead, rest, hs⟩ := Utf8.encodeChar_shape c
    rw [List.concat_eq_append, Utf8.encode_append, encode, encode, List.flatMap_singleton, hs.eq,
      incompleteTail_lead _ hs.leads hs.continues hs.short, hs.length, if_neg (fun h => Nat.lt_irrefl _ h.2)]

/-- The tail is the character that has begun. -/
theorem incompleteTail_partial (before : List UInt8) {t : List UInt8} {lead : UInt8} {rest : List UInt8}
    (ht : Partial t lead rest) : utf8IncompleteTailLength (before ++ t) = t.length := by
  rw [ht.eq, incompleteTail_lead before ht.leads ht.continues (Nat.le_of_lt ht.short), if_pos ⟨ht.short, ht.length⟩,
    List.length_cons]

/-! ## One write after the other -/

/-- The bytes so far, as the views returned and the tail kept. -/
structure JoinsUtf8 (j : Utf8Join) (views : List (List UInt8)) (bytes : List UInt8) : Prop where
  kept : views.flatten ++ j.utf8Tail = bytes
  encoded : ∀ view ∈ views, Encoded view
  tail : j.utf8Tail.length ≤ 3
  stopped : j.utf8Tail = [] ↔ Encoded bytes

/-- What a write returns and keeps, when the bytes after those kept are the beginning of a text. -/
theorem joinUtf8Writes_eq (j : Utf8Join) {bytes : List UInt8} {ds : List Char} {t : List UInt8}
    (hbytes : j.utf8Tail ++ bytes = encode ds ++ t) (ht : t = [] ∨ ∃ lead rest, Partial t lead rest) :
    (j.joinUtf8Writes bytes).1 = encode ds ∧ (j.joinUtf8Writes bytes).2.utf8Tail = t := by
  have hkeep : utf8IncompleteTailLength (encode ds ++ t) = t.length := by
    rcases ht with rfl | ⟨lead, rest, hp⟩
    · rw [List.append_nil, incompleteTail_encode, List.length_nil]
    · exact incompleteTail_partial _ hp
  have hall : (if j.utf8Tail ≠ [] then j.utf8Tail ++ bytes else bytes) = encode ds ++ t := by
    rw [← hbytes]
    split_ifs with htail
    · rfl
    · rw [not_not.mp htail, List.nil_append]
  have hview : (encode ds ++ t).length - t.length = (encode ds).length := by
    rw [List.length_append, Nat.add_sub_cancel]
  unfold Utf8Join.joinUtf8Writes
  dsimp only
  have hsame : (if j.utf8Tail ≠ [] then if j.utf8Tail ≠ [] then j.utf8Tail ++ bytes else j.utf8Join else bytes) =
      encode ds ++ t := by
    rw [← hall]
    split_ifs <;> rfl
  rw [hsame, hkeep, hview]
  exact ⟨List.take_left, List.drop_left⟩

/-- What one write keeps. -/
theorem JoinsUtf8.next {j : Utf8Join} {views : List (List UInt8)} {written : List UInt8} (h : JoinsUtf8 j views written)
    {text : List Char} {bytes : List UInt8} (htext : written ++ bytes <+: encode text) :
    JoinsUtf8 (j.joinUtf8Writes bytes).2 (views ++ [(j.joinUtf8Writes bytes).1]) (written ++ bytes) := by
  obtain ⟨more, hmore⟩ := htext
  obtain ⟨vs, hvs⟩ := Encoded.flatten h.encoded
  have hall : written ++ bytes = encode vs ++ (j.utf8Tail ++ bytes) := by
    rw [← h.kept, hvs, List.append_assoc]
  obtain ⟨cs, hcs⟩ := Utf8.encoded_of_append vs (by rw [← hmore, hall, List.append_assoc])
  obtain ⟨ds, t, hbytes, ht⟩ := Utf8.prefix_cases cs hcs
  obtain ⟨hview, htail⟩ := joinUtf8Writes_eq j hbytes ht
  refine ⟨?_, ?_, ?_, ?_⟩
  · rw [List.flatten_append, List.flatten_singleton, hview, htail, hall, hbytes, hvs, List.append_assoc]
  · rw [List.forall_mem_append, List.forall_mem_singleton]
    exact ⟨h.encoded, ds, hview.symm⟩
  · rw [htail]
    rcases ht with rfl | ⟨lead, rest, hp⟩
    · exact Nat.zero_le _
    · rw [hp.eq, List.length_cons]
      exact hp.short
  · rw [htail, hall, hbytes]
    constructor
    · rintro rfl
      exact ⟨vs ++ ds, by rw [List.append_nil, Utf8.encode_append]⟩
    · rintro ⟨es, hes⟩
      rcases ht with rfl | ⟨lead, rest, hp⟩
      · rfl
      · -- the detector finds no tail in a text, and `t` behind the whole characters
        have hlen := incompleteTail_partial (encode vs ++ encode ds) hp
        rw [List.append_assoc, ← hes, incompleteTail_encode] at hlen
        exact List.eq_nil_of_length_eq_zero hlen.symm

theorem JoinsUtf8.writes : ∀ (writes : List (List UInt8)) {j : Utf8Join} {views : List (List UInt8)}
    {written : List UInt8}, JoinsUtf8 j views written → ∀ {text : List Char}, written ++ writes.flatten <+: encode text →
    JoinsUtf8 (j.writes writes).2 (views ++ (j.writes writes).1) (written ++ writes.flatten)
  | [], j, views, written, h, _, _ => by
    rw [List.flatten_nil, List.append_nil]
    exact (List.append_nil views).symm ▸ h
  | bytes :: rest, j, views, written, h, text, htext => by
    rw [List.flatten_cons, ← List.append_assoc] at htext ⊢
    have hrest := (h.next ((List.prefix_append _ _).trans htext)).writes rest htext
    rwa [List.append_assoc] at hrest

/-- However a text is cut into writes, the views returned so far are texts, they
and the tail kept are the bytes written so far, and a tail, of at most three
bytes, is kept exactly when these bytes stop inside a character. -/
theorem join_utf8_writes_text (text : List Char) (writes : List (List UInt8)) (h : writes.flatten <+: encode text) :
    JoinsUtf8 (({} : Utf8Join).writes writes).2 (({} : Utf8Join).writes writes).1 writes.flatten :=
  have hstart : JoinsUtf8 {} [] [] := ⟨rfl, List.forall_mem_nil _, Nat.zero_le _, fun _ => ⟨[], rfl⟩, fun _ => rfl⟩
  hstart.writes writes h

/-- A character of four bytes in four writes, the last of which begins another one. -/
theorem join_utf8_writes_text_four :
    (({} : Utf8Join).writes [[0xF0], [0x9F, 0x98], [], [0x80, 0xE2]]).1.flatten ++ [0xE2] =
      ([0xF0, 0x9F, 0x98, 0x80, 0xE2] : List UInt8) :=
  (join_utf8_writes_text [Char.ofNat 0x1F600, Char.ofNat 0x20AC] [[0xF0], [0x9F, 0x98], [], [0x80, 0xE2]]
    (by decide)).kept

end Corehost
