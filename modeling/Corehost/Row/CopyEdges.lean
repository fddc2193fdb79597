import Corehost.Row.CharInfo

/-!
# Copies that begin with any column

The cells of a row after `copy_from`, also when its first column is the second
half of a wide glyph.

* `copyFrom_skip`: such a column is not copied;
* `cellAt_copyFrom_first`, `cellAt_copyFrom_mem`: the columns that are copied to;
* `cellAt_copyFrom_left`, `cellAt_copyFrom_right`, `cellAt_copyFrom_beyond`: the
  other ones.
-/

namespace Corehost.ScreenBufferRow

open Lib Lib.Strip

variable {r src : ScreenBufferRow} {w sw s d n c i : Nat}

theorem copyFrom_skip (hsrc : src.ShowsSome sw) (hr : r.ShowsSome w) (hsw : sw ≤ 0x7FFF) (hs : s + (n + 1) ≤ sw)
    (hd : d + (n + 1) ≤ w) (h0 : (src.cellAt s).cols = 0) : r.copyFrom src s d (n + 1) = r.copyFrom src (s + 1) (d + 1) n := by
  have hsrcw := hsrc.width_eq
  have hrw := hr.width_eq
  rw [copyFrom_eq_copyColumns (by omega) (by omega), copyFrom_eq_copyColumns (by omega) (by omega), copyColumns_succ,
    copyColumn]
  simp only [Nat.add_zero]
  rw [u16_of_lt (by omega), hsrc.isTrailing_eq (by omega), h0]
  rfl

/-- The first column that is copied is not a second half. -/
theorem isTrailing_behind (hsrc : src.ShowsSome sw) (hs : s + 1 < sw) (h0 : (src.cellAt s).cols = 0) :
    src.isTrailing (s + 1) = false := by
  rw [hsrc.isTrailing_eq hs]
  refine decide_eq_false fun h => ?_
  have := (hsrc.lead_of_trail hs h).2.1
  rw [Nat.add_sub_cancel] at this
  omega

/-- A copied column is the old one when its attribute is that of its glyph. -/
theorem copiedCell_eq_iff {room : Nat} (h : ¬ (i + 1 = n ∧ (src.cellAt (s + i)).cols = 2)) :
    copiedCell src s n room i = src.cellAt (s + i) ↔
      ((src.cellAt (s + i)).cols = 0 → (src.cellAt (s + i)).attr = (src.cellAt (s + i - 1)).attr) := by
  unfold copiedCell
  dsimp only
  by_cases h0 : (src.cellAt (s + i)).cols = 0
  · rw [if_pos h0]
    constructor
    · intro heq _
      exact (congrArg Cell.attr heq).symm
    · intro hattr
      exact congrArg (Cell.mk _ _) (hattr h0).symm
  · rw [if_neg h0, if_neg (fun hh => h ⟨hh.2.1, hh.1⟩)]
    exact ⟨fun _ h => absurd h h0, fun _ => rfl⟩

section

variable (hr : r.ShowsSome w) (hsrc : src.ShowsSome sw) (hsw : sw ≤ 0x7FFF) (hs : s + n ≤ sw) (hd : d + n ≤ w)

include hr hsrc hsw hs hd

/-- A copied column. -/
theorem cellAt_copyFrom_mem (hi : i < n) (h : i = 0 → (src.cellAt s).cols ≠ 0) :
    (r.copyFrom src s d n).cellAt (d + i) = copiedCell src s n (w - d) i := by
  by_cases h0 : (src.cellAt s).cols = 0
  · obtain ⟨n, rfl⟩ : ∃ m, n = m + 1 := ⟨n - 1, by omega⟩
    obtain ⟨i, rfl⟩ : ∃ j, i = j + 1 := ⟨i - 1, by have := mt h (fun h => h h0); omega⟩
    have hcell := (cellAt_copyFrom hr hsrc (show s + 1 + n ≤ sw by omega) (show d + 1 + n ≤ w by omega)
      (fun _ => isTrailing_behind hsrc (by omega) h0) (c := d + (i + 1)) (by omega)).1 (by omega)
    have hshift := copiedCell_shift src s n (w - (d + 1)) 1 i
    rw [copyFrom_skip hsrc hr hsw hs hd h0, hcell, ← show w - (d + 1) + 1 = w - d by omega, hshift]
    congr 1
    omega
  · have hcell := (cellAt_copyFrom hr hsrc hs hd (fun _ => by rw [hsrc.isTrailing_eq (by omega)]; exact decide_eq_false h0)
      (c := d + i) (by omega)).1 (by omega)
    rw [hcell, Nat.add_sub_cancel_left]

/-- The first column, when it is a second half, which is not copied. -/
theorem cellAt_copyFrom_first (hn : 0 < n) (h0 : (src.cellAt s).cols = 0) : (r.copyFrom src s d n).cellAt d =
    if 1 < n ∧ (r.cellAt d).cols = 2 then (r.cellAt d).cut else r.cellAt d := by
  obtain ⟨n, rfl⟩ : ∃ m, n = m + 1 := ⟨n - 1, by omega⟩
  have hcell := (cellAt_copyFrom hr hsrc (show s + 1 + n ≤ sw by omega) (show d + 1 + n ≤ w by omega)
    (fun _ => isTrailing_behind hsrc (by omega) h0) (c := d) (by omega)).2 (.inl (Nat.lt_succ_self d)) (by omega)
  rw [copyFrom_skip hsrc hr hsw hs hd h0, hcell]
  exact if_congr (by omega) rfl rfl

/-- A column in front of them. -/
theorem cellAt_copyFrom_left (hc : c < d) : (r.copyFrom src s d n).cellAt c =
    if 0 < n ∧ (src.cellAt s).cols ≠ 0 ∧ c + 1 = d ∧ (r.cellAt c).cols = 2 then (r.cellAt c).cut else r.cellAt c := by
  by_cases h0 : 0 < n ∧ (src.cellAt s).cols = 0
  · obtain ⟨n, rfl⟩ : ∃ m, n = m + 1 := ⟨n - 1, by omega⟩
    have hcell := (cellAt_copyFrom hr hsrc (show s + 1 + n ≤ sw by omega) (show d + 1 + n ≤ w by omega)
      (fun _ => isTrailing_behind hsrc (by omega) h0.2) (c := c) (by omega)).2 (.inl (by omega)) (by omega)
    rw [copyFrom_skip hsrc hr hsw hs hd h0.2, hcell, if_neg (by omega), if_neg (by omega)]
  · have hcell := (cellAt_copyFrom hr hsrc hs hd (fun hn => by
      rw [hsrc.isTrailing_eq (by omega)]
      exact decide_eq_false fun h => h0 ⟨hn, h⟩) (c := c) (by omega)).2 (.inl hc) (by omega)
    rw [hcell]
    exact if_congr (by omega) rfl rfl

/-- A column behind them, when they do not end with a first half, or at the end of the row. -/
theorem cellAt_copyFrom_right (hc : d + n ≤ c) (hcw : c < w) (hlast : (src.cellAt (s + n - 1)).cols ≠ 2 ∨ d + n = w) :
    (r.copyFrom src s d n).cellAt c =
      if 0 < n ∧ ¬ (n = 1 ∧ (src.cellAt s).cols = 0) ∧ c = d + n ∧ (r.cellAt c).cols = 0 then (r.cellAt c).cut
      else r.cellAt c := by
  by_cases h0 : 0 < n ∧ (src.cellAt s).cols = 0
  · obtain ⟨n, rfl⟩ : ∃ m, n = m + 1 := ⟨n - 1, by omega⟩
    have hspill : n = 0 ∨ (src.cellAt (s + 1 + n - 1)).cols ≠ 2 ∨ d + 1 + n = w := by
      rw [show s + 1 + n - 1 = s + (n + 1) - 1 by omega]
      omega
    have hcell := (cellAt_copyFrom hr hsrc (show s + 1 + n ≤ sw by omega) (show d + 1 + n ≤ w by omega)
      (fun _ => isTrailing_behind hsrc (by omega) h0.2) hcw).2 (.inr hspill) (by omega)
    rw [copyFrom_skip hsrc hr hsw hs hd h0.2, hcell]
    exact if_congr (by omega) rfl rfl
  · have hcell := (cellAt_copyFrom hr hsrc hs hd (fun hn => by
      rw [hsrc.isTrailing_eq (by omega)]
      exact decide_eq_false fun h => h0 ⟨hn, h⟩) hcw).2 (.inr (.inr hlast)) (by omega)
    rw [hcell]
    exact if_congr (by omega) rfl rfl

/-- A column behind them and behind one more, which a first half at their end may take. -/
theorem cellAt_copyFrom_beyond (hc : d + n < c) (hcw : c < w) : (r.copyFrom src s d n).cellAt c = r.cellAt c ∨
    c = d + n + 1 ∧ (r.cellAt c).cols = 0 ∧ (r.copyFrom src s d n).cellAt c = (r.cellAt c).cut := by
  have hplain {s d n : Nat} (hs : s + n ≤ sw) (hd : d + n ≤ w) (ht : 0 < n → src.isTrailing s = false) (hc : d + n < c) :
      (r.copyFrom src s d n).cellAt c = r.cellAt c ∨
        c = d + n + 1 ∧ (r.cellAt c).cols = 0 ∧ (r.copyFrom src s d n).cellAt c = (r.cellAt c).cut := by
    have hwl : w ≤ 0x7FFF := by
      obtain ⟨gs, as, h⟩ := hr
      exact h.width_le
    obtain ⟨run, hvis, hrun⟩ := visible_copyColumns hsrc hsw hwl n s d hr hs hd ht
    have hlen := hrun.length
    rw [copyFrom_eq_copyColumns (by rw [hsrc.width_eq]; exact hs) (by rw [hr.width_eq]; exact hd)]
    have hx := hr.copyFrom hsrc s d n
    rw [copyFrom_eq_copyColumns (by rw [hsrc.width_eq]; exact hs) (by rw [hr.width_eq]; exact hd)] at hx
    rw [cellAt_of_visible hr.width_eq hx.width_eq hvis hcw, overwriteCell, if_neg (by omega), if_neg (by omega)]
    split_ifs with h
    · exact .inr ⟨by omega, h.2.2, rfl⟩
    · exact .inl rfl
  by_cases h0 : 0 < n ∧ (src.cellAt s).cols = 0
  · obtain ⟨n, rfl⟩ : ∃ m, n = m + 1 := ⟨n - 1, by omega⟩
    have hcell := hplain (show s + 1 + n ≤ sw by omega) (show d + 1 + n ≤ w by omega)
      (fun _ => isTrailing_behind hsrc (by omega) h0.2) (by omega)
    rw [copyFrom_skip hsrc hr hsw hs hd h0.2]
    exact hcell.imp_right fun h => ⟨by omega, h.2⟩
  · refine hplain hs hd (fun hn => ?_) hc
    rw [hsrc.isTrailing_eq (by omega)]
    exact decide_eq_false fun h => h0 ⟨hn, h⟩

end

end Corehost.ScreenBufferRow
