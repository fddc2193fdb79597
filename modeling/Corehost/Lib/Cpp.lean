import Mathlib.Algebra.Group.Int.Defs
import Mathlib.Algebra.Group.Nat.Defs
import Mathlib.Data.List.Basic

/-!
# Integer conversions and containers

The conversions between the integer types of the modelled code, and the
operations of `std::vector` and `std::u32string` it uses, on lists:

* `u16`, `i16`, `sizeT`: conversion to `uint16_t`, `int16_t` and `size_t`;
* `setRange`, `fillRange`, `iota`: `std::copy`, `std::fill` and `std::iota`;
* `replace`: `basic_string::replace`; `resize`: `vector::resize`.
-/

namespace Corehost.Lib

/-- Conversion to `uint16_t`. -/
def u16 (n : Nat) : Nat := n % 0x10000

/-- Conversion to `int16_t`. -/
def i16 (n : Int) : Int := n.bmod 0x10000

/-- Conversion of a signed integer to `size_t`. -/
def sizeT (n : Int) : Nat := (n % 2 ^ 64).toNat

theorem u16_of_lt {n : Nat} (h : n < 0x10000) : u16 n = n := Nat.mod_eq_of_lt h

theorem i16_of_range {n : Int} (h : -0x8000 ≤ n) (h' : n < 0x8000) : i16 n = n := by
  unfold i16; rw [Int.bmod_def]; omega

/-- A value of `int16_t`. -/
def IsShort (v : Int) : Prop := -0x8000 ≤ v ∧ v < 0x8000

instance (v : Int) : Decidable (IsShort v) := inferInstanceAs (Decidable (_ ∧ _))

theorem isShort_i16 (v : Int) : IsShort (i16 v) := by
  unfold IsShort i16
  rw [Int.bmod_def]
  omega

theorem sizeT_natCast {n : Nat} (h : n < 2 ^ 64) : sizeT n = n := by
  unfold sizeT; omega

theorem sizeT_sub {a b : Nat} (h : b ≤ a) (ha : a < 2 ^ 64) : sizeT ((a : Int) - b) = a - b := by
  unfold sizeT; omega

variable {α : Type*}

/-- `std::copy(vs.begin(), vs.end(), l.begin() + a)`. -/
def setRange (l : List α) (a : Nat) (vs : List α) : List α := l.take a ++ vs ++ l.drop (a + vs.length)

/-- `std::fill(l.begin() + a, l.begin() + b, v)`. -/
def fillRange (l : List α) (a b : Nat) (v : α) : List α := setRange l a (List.replicate (b - a) v)

/-- `std::iota(l.begin() + a, l.begin() + b, uint16_t{v})`. -/
def iota (l : List Nat) (a b v : Nat) : List Nat := setRange l a ((List.range' v (b - a)).map u16)

/-- `l.replace(pos, count, vs)`. -/
def replace (l : List α) (pos count : Nat) (vs : List α) : List α := l.take pos ++ vs ++ l.drop (pos + count)

/-- `l.resize(n)`, new elements being `v`. -/
def resize (l : List α) (n : Nat) (v : α) : List α := l.take n ++ List.replicate (n - l.length) v

@[simp] theorem length_resize (l : List α) (n : Nat) (v : α) : (resize l n v).length = n := by
  simp [resize]; omega

theorem length_setRange {l : List α} {a : Nat} {vs : List α} (h : a + vs.length ≤ l.length) :
    (setRange l a vs).length = l.length := by
  simp [setRange]; omega

theorem length_fillRange {l : List α} {a b : Nat} (v : α) (h : b ≤ l.length) (hab : a ≤ b) :
    (fillRange l a b v).length = l.length :=
  length_setRange (by simp; omega)

theorem length_iota {l : List Nat} {a b : Nat} (v : Nat) (h : b ≤ l.length) (hab : a ≤ b) :
    (iota l a b v).length = l.length :=
  length_setRange (by simp; omega)

theorem range'_map_u16 {v n : Nat} (h : v + n ≤ 0x10000) : (List.range' v n).map u16 = List.range' v n := by
  conv_rhs => rw [← List.map_id (List.range' v n)]
  refine List.map_congr_left fun x hx => ?_
  have := List.mem_range'_1.mp hx
  exact u16_of_lt (by omega)

theorem setRange_append {xs ys zs vs : List α} (h : vs.length = ys.length) :
    setRange (xs ++ ys ++ zs) xs.length vs = xs ++ vs ++ zs := by
  simp [setRange, h]

theorem replace_append (xs ys zs vs : List α) :
    replace (xs ++ ys ++ zs) xs.length ys.length vs = xs ++ vs ++ zs := by
  simp [replace]

@[simp] theorem setRange_nil (l : List α) (a : Nat) : setRange l a [] = l := by simp [setRange]

/-- Copying element by element. -/
theorem setRange_cons {l : List α} {a : Nat} (h : a < l.length) (v : α) (vs : List α) :
    setRange (l.set a v) (a + 1) vs = setRange l a (v :: vs) := by
  have h1 : (l.set a v).take (a + 1) = l.take a ++ [v] := by
    rw [List.take_set, List.take_add_one, List.getElem?_eq_getElem h]
    rw [Option.toList_some, List.set_append_right _ _ (by rw [List.length_take]; omega)]
    simp [Nat.min_eq_left (Nat.le_of_lt h)]
  have h2 : (l.set a v).drop (a + 1 + vs.length) = l.drop (a + (v :: vs).length) := by
    rw [List.drop_set_of_lt (by omega)]
    congr 1
    simp only [List.length_cons]; omega
  rw [setRange, h1, h2, setRange]
  simp

/-- A loop that assigns to the elements from index `a + k` on, one by one. -/
theorem foldl_set_zipIdx {f : Nat → Nat} {a : Nat} : ∀ (vs : List α) {k : Nat} {l : List α},
    (∀ i, k ≤ i → i < k + vs.length → f i = a + i) → a + k + vs.length ≤ l.length →
    (vs.zipIdx k).foldl (fun t p => t.set (f p.2) p.1) l = setRange l (a + k) vs
  | [], k, l, _, _ => by simp
  | v :: vs, k, l, hf, hl => by
    simp only [List.length_cons] at hf hl
    rw [List.zipIdx_cons, List.foldl_cons, hf k (by omega) (by omega),
      foldl_set_zipIdx vs (fun i h1 h2 => hf i (by omega) (by omega)) (by simp; omega),
      show a + (k + 1) = a + k + 1 by omega, setRange_cons (by omega)]

theorem getElem?_setRange {l : List α} {a : Nat} {vs : List α} (h : a + vs.length ≤ l.length) (i : Nat) :
    (setRange l a vs)[i]? = if a ≤ i ∧ i < a + vs.length then vs[i - a]? else l[i]? := by
  have hl : (l.take a).length = a := by simp; omega
  unfold setRange
  rcases Nat.lt_or_ge i a with hlt | hge
  · rw [if_neg (by omega), List.append_assoc, List.getElem?_append_left (by omega), List.getElem?_take_of_lt hlt]
  · rcases Nat.lt_or_ge i (a + vs.length) with hlt' | hge'
    · rw [if_pos ⟨hge, hlt'⟩, List.getElem?_append_left (by simp; omega), List.getElem?_append_right (by omega), hl]
    · rw [if_neg (by omega), List.getElem?_append_right (by simp; omega), List.getElem?_drop]
      congr 1
      simp; omega

end Corehost.Lib
