import Mathlib.Data.List.Basic
import Mathlib.Data.UInt

/-!
# Encoded characters

Texts as the bytes of `String.utf8EncodeChar`. An encoded character is a
leading byte, which says how long it is, and continuation bytes. Main results:

* `Utf8.encodeChar_shape`: the bytes of one character;
* `Utf8.encoded_of_append`: what follows whole characters in a text is a text;
* `Utf8.prefix_cases`: the first bytes of a text are whole characters and the
  beginning of at most one more.
-/

namespace Utf8

/-- The bytes of a text. -/
def encode (cs : List Char) : List UInt8 := cs.flatMap String.utf8EncodeChar

/-- The bytes are those of a text. -/
def Encoded (bytes : List UInt8) : Prop := ∃ cs, encode cs = bytes

def isContinuation (b : UInt8) : Bool := b &&& 0xC0 == 0x80

/-- How many bytes a character with this leading byte has. -/
def leadLength (b : UInt8) : Nat := if b ≥ 0xF0 then 4 else if b ≥ 0xE0 then 3 else if b ≥ 0xC0 then 2 else 1

/-- A leading byte and all its continuation bytes. -/
structure Shape (bytes : List UInt8) (lead : UInt8) (rest : List UInt8) : Prop where
  eq : bytes = lead :: rest
  leads : isContinuation lead = false
  continues : ∀ b ∈ rest, isContinuation b = true
  length : leadLength lead = rest.length + 1
  short : rest.length ≤ 3

theorem continuation_ofNat (n : Nat) : isContinuation (UInt8.ofNat (n % 0x40 + 0x80)) = true :=
  (by decide : ∀ k < 0x40, isContinuation (UInt8.ofNat (k + 0x80)) = true) _ (Nat.mod_lt n (by decide))

theorem lead_one {n : Nat} (h : n ≤ 0x7f) :
    isContinuation (UInt8.ofNat n) = false ∧ leadLength (UInt8.ofNat n) = 1 :=
  (by decide : ∀ k ≤ 0x7f, isContinuation (UInt8.ofNat k) = false ∧ leadLength (UInt8.ofNat k) = 1) n h

theorem lead_two (n : Nat) : isContinuation (UInt8.ofNat (n % 0x20 + 0xc0)) = false ∧
    leadLength (UInt8.ofNat (n % 0x20 + 0xc0)) = 2 :=
  (by decide : ∀ k < 0x20, isContinuation (UInt8.ofNat (k + 0xc0)) = false ∧
    leadLength (UInt8.ofNat (k + 0xc0)) = 2) _ (Nat.mod_lt n (by decide))

theorem lead_three (n : Nat) : isContinuation (UInt8.ofNat (n % 0x10 + 0xe0)) = false ∧
    leadLength (UInt8.ofNat (n % 0x10 + 0xe0)) = 3 :=
  (by decide : ∀ k < 0x10, isContinuation (UInt8.ofNat (k + 0xe0)) = false ∧
    leadLength (UInt8.ofNat (k + 0xe0)) = 3) _ (Nat.mod_lt n (by decide))

theorem lead_four (n : Nat) : isContinuation (UInt8.ofNat (n % 0x08 + 0xf0)) = false ∧
    leadLength (UInt8.ofNat (n % 0x08 + 0xf0)) = 4 :=
  (by decide : ∀ k < 0x08, isContinuation (UInt8.ofNat (k + 0xf0)) = false ∧
    leadLength (UInt8.ofNat (k + 0xf0)) = 4) _ (Nat.mod_lt n (by decide))

theorem encodeChar_shape (c : Char) : ∃ lead rest, Shape (String.utf8EncodeChar c) lead rest := by
  unfold String.utf8EncodeChar
  dsimp only
  generalize c.val.toNat = n
  split_ifs with h1 h2 h3
  · exact ⟨_, [], rfl, (lead_one h1).1, List.forall_mem_nil _, (lead_one h1).2, Nat.zero_le _⟩
  · refine ⟨_, [_], rfl, (lead_two _).1, ?_, (lead_two _).2, by simp⟩
    exact List.forall_mem_singleton.mpr (continuation_ofNat _)
  · refine ⟨_, [_, _], rfl, (lead_three _).1, ?_, (lead_three _).2, by simp⟩
    exact List.forall_mem_cons.mpr ⟨continuation_ofNat _, List.forall_mem_singleton.mpr (continuation_ofNat _)⟩
  · refine ⟨_, [_, _, _], rfl, (lead_four _).1, ?_, (lead_four _).2, by simp⟩
    exact List.forall_mem_cons.mpr ⟨continuation_ofNat _, List.forall_mem_cons.mpr
      ⟨continuation_ofNat _, List.forall_mem_singleton.mpr (continuation_ofNat _)⟩⟩

theorem encode_append (cs ds : List Char) : encode (cs ++ ds) = encode cs ++ encode ds := List.flatMap_append

theorem Encoded.append {a b : List UInt8} (ha : Encoded a) (hb : Encoded b) : Encoded (a ++ b) := by
  obtain ⟨cs, rfl⟩ := ha
  obtain ⟨ds, rfl⟩ := hb
  exact ⟨cs ++ ds, encode_append cs ds⟩

theorem Encoded.flatten : ∀ {views : List (List UInt8)}, (∀ view ∈ views, Encoded view) → Encoded views.flatten
  | [], _ => ⟨[], rfl⟩
  | _ :: _, h => (h _ List.mem_cons_self).append (Encoded.flatten fun v hv => h v (List.mem_cons_of_mem _ hv))

/-- What follows whole characters in a text is a text: a leading byte says how long its character is. -/
theorem encoded_of_append : ∀ (ds : List Char) {cs : List Char} {bytes : List UInt8}, encode cs = encode ds ++ bytes →
    Encoded bytes
  | [], cs, _, h => ⟨cs, h⟩
  | d :: ds, [], _, h => by
    obtain ⟨lead, rest, hd⟩ := encodeChar_shape d
    have hnil := (List.append_eq_nil_iff.mp h.symm).1
    rw [encode, List.flatMap_cons, hd.eq] at hnil
    exact absurd hnil (List.cons_ne_nil _ _)
  | d :: ds, c :: cs, bytes, h => by
    obtain ⟨lead, rest, hc⟩ := encodeChar_shape c
    obtain ⟨lead', rest', hd⟩ := encodeChar_shape d
    have hcons : String.utf8EncodeChar c ++ encode cs = String.utf8EncodeChar d ++ (encode ds ++ bytes) := by
      rw [← List.append_assoc]
      exact h
    have hlead : lead = lead' := by
      rw [hc.eq, hd.eq, List.cons_append, List.cons_append] at hcons
      exact (List.cons_eq_cons.mp hcons).1
    have hlen : rest.length = rest'.length := by
      have hc' := hc.length
      rw [hlead, hd.length] at hc'
      exact (Nat.succ.inj hc').symm
    exact encoded_of_append ds (List.append_inj hcons (by rw [hc.eq, hd.eq, List.length_cons, List.length_cons, hlen])).2

/-! ## The beginning of a text -/

/-- The beginning of a character, without all of it. -/
structure Partial (bytes : List UInt8) (lead : UInt8) (rest : List UInt8) : Prop where
  eq : bytes = lead :: rest
  leads : isContinuation lead = false
  continues : ∀ b ∈ rest, isContinuation b = true
  length : rest.length + 1 < leadLength lead
  short : rest.length < 3

/-- The beginning of an encoded character is nothing, all of it or a part. -/
theorem prefix_encodeChar {bytes more : List UInt8} {c : Char} (h : String.utf8EncodeChar c = bytes ++ more) :
    bytes = [] ∨ bytes = String.utf8EncodeChar c ∨ ∃ lead rest, Partial bytes lead rest := by
  obtain ⟨lead, rest, hs⟩ := encodeChar_shape c
  rcases bytes with _ | ⟨b, bytes⟩
  · exact .inl rfl
  · obtain ⟨rfl, hrest⟩ := List.cons_eq_cons.mp (hs.eq.symm.trans h)
    change rest = bytes ++ more at hrest
    rcases more with _ | ⟨m, more⟩
    · exact .inr (.inl (by rw [h, List.append_nil]))
    · have hlen := congrArg List.length hrest
      have hshort := hs.short
      rw [List.length_append, List.length_cons] at hlen
      refine .inr (.inr ⟨lead, bytes, rfl, hs.leads, fun x hx => ?_, by rw [hs.length]; omega, by omega⟩)
      exact hs.continues x (by rw [hrest]; exact List.mem_append_left _ hx)

/-- The first bytes of a text are whole characters and the beginning of at most one more. -/
theorem prefix_cases : ∀ (cs : List Char) {bytes more : List UInt8}, encode cs = bytes ++ more →
    ∃ ds t, bytes = encode ds ++ t ∧ (t = [] ∨ ∃ lead rest, Partial t lead rest)
  | [], _, _, h => ⟨[], [], (List.append_eq_nil_iff.mp h.symm).1, .inl rfl⟩
  | c :: cs, bytes, more, h => by
    rcases List.append_eq_append_iff.mp ((@List.flatMap_cons _ _ c cs String.utf8EncodeChar).symm.trans h) with
      ⟨more', rfl, hmore⟩ | ⟨more', hchar, -⟩
    · obtain ⟨ds, t, rfl, ht⟩ := prefix_cases cs hmore
      exact ⟨c :: ds, t, by rw [← List.append_assoc]; rfl, ht⟩
    · rcases prefix_encodeChar hchar with rfl | rfl | hp
      · exact ⟨[], [], rfl, .inl rfl⟩
      · exact ⟨[c], [], by simp [encode], .inl rfl⟩
      · exact ⟨[], bytes, rfl, .inr hp⟩

end Utf8
