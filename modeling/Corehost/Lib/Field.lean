import Mathlib.Data.Nat.Bitwise
import Mathlib.Data.UInt

/-!
# Bit fields of a 16-bit word

A word is its fields under masks that do not overlap. Writing `v` under the
mask `m` clears the field and sets the bits of `v`.

* `putField_and_disjoint`, `putField_and_self`: what a write does to the fields;
* `or_and`: masking distributes over `|||`.
-/

namespace Corehost.Lib

/-- `(a & keep) | v`, for `keep` the complement of the mask of the field. -/
def putField (a keep v : UInt16) : UInt16 := (a &&& keep) ||| v

theorem or_and (a b m : UInt16) : (a ||| b) &&& m = (a &&& m) ||| (b &&& m) := by
  refine UInt16.toBitVec_inj.1 (BitVec.eq_of_getLsbD_eq fun i _ => ?_)
  simp [Bool.and_or_distrib_right]

/-- The field under `m`, when the mask is inside what the write keeps. -/
theorem putField_and_disjoint {a keep v m : UInt16} (hk : keep &&& m = m) (hv : v &&& m = 0) :
    putField a keep v &&& m = a &&& m := by
  rw [putField, or_and, UInt16.and_assoc, hk, hv, UInt16.or_zero]

/-- The field under `m`, when the write replaces it. -/
theorem putField_and_self {a keep v m : UInt16} (hk : keep &&& m = 0) (hv : v &&& m = v) :
    putField a keep v &&& m = v := by
  rw [putField, or_and, UInt16.and_assoc, hk, hv, UInt16.and_zero, UInt16.zero_or]

theorem or_eq_putField (a v : UInt16) : a ||| v = putField a (~~~v) v := by
  refine UInt16.toBitVec_inj.1 (BitVec.eq_of_getLsbD_eq fun i _ => ?_)
  simp [putField]
  cases a.toBitVec.getLsbD i <;> cases v.toBitVec.getLsbD i <;> simp_all

theorem and_eq_putField (a keep : UInt16) : a &&& keep = putField a keep 0 := UInt16.or_zero.symm

/-- A field of one bit is empty or full. -/
theorem and_pow_eq (x : UInt16) {b : UInt16} {i : Nat} (hb : b.toNat = 2 ^ i) : x &&& b = 0 ∨ x &&& b = b := by
  have hand : (x &&& b).toNat = (x.toNat.testBit i).toNat * 2 ^ i := by
    rw [UInt16.toNat_and, hb, Nat.and_two_pow]
  cases ht : x.toNat.testBit i
  · left
    exact UInt16.toNat_inj.mp (by simpa [ht] using hand)
  · right
    exact UInt16.toNat_inj.mp (by simpa [ht, hb] using hand)

/-- Two words are equal when their fields are, for masks that cover the word. -/
theorem eq_of_fields {a b : UInt16} (masks : List UInt16) (hm : masks.foldr (· ||| ·) 0 = 0xFFFF)
    (h : ∀ m ∈ masks, a &&& m = b &&& m) : a = b := by
  have hall : ∀ (ms : List UInt16), (∀ m ∈ ms, a &&& m = b &&& m) →
      a &&& ms.foldr (· ||| ·) 0 = b &&& ms.foldr (· ||| ·) 0 := by
    intro ms hms
    induction ms with
    | nil => simp
    | cons m ms ih =>
      have h1 := hms m List.mem_cons_self
      have h2 := ih fun x hx => hms x (List.mem_cons_of_mem _ hx)
      rw [List.foldr_cons, UInt16.and_comm a, UInt16.and_comm b, or_and, or_and, UInt16.and_comm m a, UInt16.and_comm m b,
        UInt16.and_comm _ a, UInt16.and_comm _ b, h1, h2]
  have := hall masks h
  rw [hm] at this
  have hone (x : UInt16) : x &&& 0xFFFF = x := UInt16.and_neg_one
  rwa [hone, hone] at this

end Corehost.Lib
