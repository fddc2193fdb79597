import Mathlib.Data.List.Basic
import Mathlib.Tactic.Ring
import Mathlib.Tactic.Linarith

/-!
# Ranges of bytes

A `Span` is a range of byte offsets. `rowSpan` is the range of one row of a
rectangle in an array of rows, as a loop over the rows of a clipped rectangle
accesses it.

* `Span.within_iff`: the bounds of a range, by its ends;
* `rowSpan_cover`: such a loop accesses the whole array exactly when the
  rectangle has not been clipped.
-/

namespace Corehost.Lib

/-- The bytes from offset `first` on, `size` of them. -/
structure Span where
  first : Int
  size : Nat
deriving DecidableEq, Repr

namespace Span

variable {s : Span} {lo hi b : Int}

def Has (s : Span) (b : Int) : Prop := s.first ≤ b ∧ b < s.first + s.size

instance (s : Span) (b : Int) : Decidable (s.Has b) := inferInstanceAs (Decidable (_ ∧ _))

/-- No byte of the range is below `lo`, or at `hi` or above. -/
def Within (s : Span) (lo hi : Int) : Prop := ∀ b, s.Has b → lo ≤ b ∧ b < hi

theorem within_iff : s.Within lo hi ↔ s.size = 0 ∨ lo ≤ s.first ∧ s.first + s.size ≤ hi := by
  constructor
  · intro h
    rcases Nat.eq_zero_or_pos s.size with h0 | hpos
    · exact .inl h0
    · have h1 := h s.first ⟨le_refl _, by omega⟩
      have h2 := h (s.first + s.size - 1) ⟨by omega, by omega⟩
      exact .inr ⟨h1.1, by omega⟩
  · rintro (h0 | ⟨h1, h2⟩) b ⟨hb, hb'⟩ <;> omega

theorem Within.mono {lo' hi' : Int} (h : s.Within lo hi) (hlo : lo' ≤ lo) (hhi : hi ≤ hi') : s.Within lo' hi' :=
  fun b hb => ⟨hlo.trans (h b hb).1, (h b hb).2.trans_le hhi⟩

end Span

/-- In an array at `base` with rows of `w` elements of `e` bytes: the elements
`[x, x + n)` of row `y`. -/
def rowSpan (base : Int) (e : Nat) (w x y : Int) (n : Nat) : Span := ⟨base + e * (y * w + x), e * n⟩

section Rows

variable {base w h x top : Int} {e n rows : Nat}

/-- The rows of a rectangle inside the array are inside the array. -/
theorem rowSpan_within {y : Int} (hx : 0 ≤ x) (hn : x + n ≤ w) (hy : 0 ≤ y) (hy' : y < h) :
    (rowSpan base e w x y n).Within base (base + e * (w * h)) := by
  have hlow : 0 ≤ y * w + x := by nlinarith [mul_nonneg hy (by omega : 0 ≤ w)]
  have hhigh : y * w + x + n ≤ w * h := by nlinarith [mul_nonneg (by omega : 0 ≤ h - 1 - y) (by omega : 0 ≤ w)]
  refine Span.within_iff.mpr (.inr ⟨?_, ?_⟩)
  · have : (0 : Int) ≤ e * (y * w + x) := mul_nonneg (by omega) hlow
    simp only [rowSpan]
    omega
  · have : (e : Int) * (y * w + x + n) ≤ e * (w * h) := mul_le_mul_of_nonneg_left hhigh (by omega)
    simp only [rowSpan]
    push_cast
    linarith

/-- The rows `top`, …, `top + rows - 1` of a rectangle inside an array of `h`
rows make up the array only when they are all its rows, whole. -/
theorem rowSpan_cover (he : 0 < e) (hw : 0 < w) (hh : 0 < h) (hx : 0 ≤ x) (hn : x + n ≤ w) (htop : 0 ≤ top)
    (hrows : top + rows ≤ h) :
    (∀ b, base ≤ b → b < base + e * (w * h) → ∃ k < rows, (rowSpan base e w x (top + k) n).Has b) ↔
      x = 0 ∧ (n : Int) = w ∧ top = 0 ∧ (rows : Int) = h := by
  have hpos : (0 : Int) < e := by omega
  constructor
  · intro hc
    have hwh : 0 < w * h := mul_pos hw hh
    have hlast : (e : Int) * (w * h) ≥ e := by nlinarith
    obtain ⟨k, hk, hb⟩ := hc base (le_refl _) (by nlinarith)
    obtain ⟨l, hl, hb'⟩ := hc (base + e * (w * h) - 1) (by omega) (by omega)
    -- The first byte is in the first row, and the last byte in the last row.
    have h0 : (top + k) * w + x ≤ 0 := by
      by_contra hne
      have : (e : Int) * 1 ≤ e * ((top + k) * w + x) := mul_le_mul_of_nonneg_left (by omega) (by omega)
      have := hb.1
      simp only [rowSpan] at this
      omega
    have hk0 : 0 ≤ (top + k) * w := mul_nonneg (by omega) (by omega)
    have hx0 : x = 0 := by omega
    have htk : top + k = 0 := by
      by_contra hne
      have : 1 * w ≤ (top + k) * w := mul_le_mul_of_nonneg_right (by omega) (by omega)
      omega
    have h1 : w * h ≤ (top + l) * w + n := by
      by_contra hne
      have : (e : Int) * ((top + l) * w + n) ≤ e * (w * h - 1) := mul_le_mul_of_nonneg_left (by omega) (by omega)
      have hb2 := hb'.2
      simp only [rowSpan, hx0] at hb2
      push_cast at hb2
      nlinarith
    have hl' : (top + l) * w ≤ (h - 1) * w := mul_le_mul_of_nonneg_right (by omega) (by omega)
    have hnw : (n : Int) = w := by nlinarith
    have hlh : top + l = h - 1 := by
      by_contra hne
      have : (top + l) * w ≤ (h - 2) * w := mul_le_mul_of_nonneg_right (by omega) (by omega)
      nlinarith
    omega
  · rintro ⟨rfl, hnw, rfl, hrh⟩ b hb hb'
    have hq0 : 0 ≤ (b - base) / (e * w) := Int.ediv_nonneg (by omega) (by positivity)
    have hq1 : (b - base) / (e * w) < h := Int.ediv_lt_of_lt_mul (by positivity) (by nlinarith)
    have hdiv := Int.emod_add_mul_ediv (b - base) (e * w)
    have hm0 := Int.emod_nonneg (b - base) (by positivity : (e * w : Int) ≠ 0)
    have hm1 := Int.emod_lt_of_pos (b - base) (by positivity : (0 : Int) < e * w)
    refine ⟨((b - base) / (e * w)).toNat, by omega, ?_⟩
    have hq : (((b - base) / (e * w)).toNat : Int) = (b - base) / (e * w) := by omega
    simp only [Span.Has, rowSpan, hq]
    push_cast
    rw [hnw]
    constructor <;> nlinarith

end Rows

end Corehost.Lib
