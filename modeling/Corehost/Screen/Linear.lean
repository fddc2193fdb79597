import Corehost.Row.Fill
import Corehost.Screen.Rect

/-!
# Cells in linear order

The model of `fill_char` (`screen_buffer.hpp`), which fills cells from a
position on, across the ends of rows.

* `eachRow`: the loop over the rows, with a state that says what is left to do;
* `eachRow_spec`: the state and the rows it leaves;
* `Requested`, `filledCell`: the cells that are to be filled, and every cell
  after the characters have been filled in;
* `fill_char_keeps_attributes_iff`: `fill_char` leaves these cells exactly when
  the cells to be filled have the default attribute.
-/

namespace Corehost.ScreenBuffer

open Lib Lib.Strip ScreenBufferRow

/-! ## Rows one after the other -/

section EachRow

variable {σ : Type*} (more : σ → Bool) (next : σ → Nat → σ) (act : σ → Nat → ScreenBufferRow → ScreenBufferRow)

/-- At most `n` rows from row `y` on, while there is more to do. The first
column is `x` in the first row and 0 in the others. -/
def eachRow : Nat → Nat → Nat → σ → ScreenBuffer → σ × ScreenBuffer
  | 0, _, _, st, s => (st, s)
  | n + 1, x, y, st, s =>
    if more st then eachRow n 0 (y + 1) (next st x) (s.modifyRow y (act st x)) else (st, s)

/-- The state in front of the row with index `i`. -/
def rowState (x : Nat) (st : σ) : Nat → σ
  | 0 => st
  | i + 1 => if more (rowState x st i) then next (rowState x st i) (if i = 0 then x else 0) else rowState x st i

variable {more next act}

variable (next) in
theorem rowState_succ {x : Nat} {st : σ} (h : more st = true) : ∀ i : Nat,
    rowState more next x st (i + 1) = rowState more next 0 (next st x) i
  | 0 => by simp [rowState, h]
  | i + 1 => by
    have ih := rowState_succ (x := x) h i
    rw [rowState, ih, rowState, if_neg (Nat.succ_ne_zero i), ite_self]

theorem rowState_done {x : Nat} {st : σ} (h : more st = false) : ∀ i : Nat, rowState more next x st i = st
  | 0 => rfl
  | i + 1 => by
    rw [rowState, rowState_done h i, if_neg (by rw [h]; decide)]

theorem Sized.row_modifyRow {s : ScreenBuffer} (h : s.Sized) (f : ScreenBufferRow → ScreenBufferRow)
    (hf : ∀ r, r.ShowsSome s.size.x.toNat → (f r).ShowsSome s.size.x.toNat) {y i : Nat} (hy : (y : Int) < s.size.y)
    (hi : (i : Int) < s.size.y) : (s.modifyRow y f).row i = if i = y then f (s.row i) else s.row i := by
  have hnew := ((h.modifyRow y hf).row_eq (y := i) hi).1
  have hold := (h.row_eq hi).1
  rw [h.lines_modifyRow hy, List.getElem?_modify, hold, Int.toNat_natCast, Int.toNat_natCast] at hnew
  rw [← Option.some_inj, ← hnew]
  by_cases hiy : y = i
  · rw [if_pos hiy.symm]
    exact congrArg some (if_pos hiy)
  · rw [if_neg (Ne.symm hiy)]
    exact congrArg some (if_neg hiy)

variable (more next act) in
/-- Each row is changed in the state in front of it. -/
theorem eachRow_spec (hact : ∀ (w : Nat) st x r, r.ShowsSome w → (act st x r).ShowsSome w) : ∀ (n x y : Nat) (st : σ)
    {s : ScreenBuffer}, s.Sized → y + n ≤ s.size.y.toNat →
    (eachRow more next act n x y st s).1 = rowState more next x st n ∧
      (eachRow more next act n x y st s).2.Sized ∧ (eachRow more next act n x y st s).2.size = s.size ∧
      (eachRow more next act n x y st s).2.viewport = s.viewport ∧
      ∀ i : Nat, (i : Int) < s.size.y → (eachRow more next act n x y st s).2.row i =
        if (y ≤ i ∧ i < y + n) ∧ more (rowState more next x st (i - y)) = true then
          act (rowState more next x st (i - y)) (if i = y then x else 0) (s.row i)
        else s.row i
  | 0, _, _, _, _, h, _ => ⟨rfl, h, rfl, rfl, fun i _ => by rw [if_neg (by omega)]; rfl⟩
  | n + 1, x, y, st, s, h, hn => by
    rw [eachRow]
    by_cases hmore : more st = true
    · rw [if_pos hmore]
      have hmod := h.modifyRow y (hact s.size.x.toNat st x)
      obtain ⟨hst, hsized, hsize, hview, hrows⟩ := eachRow_spec hact n 0 (y + 1) (next st x) hmod
        (by change y + 1 + n ≤ s.size.y.toNat; omega)
      refine ⟨hst.trans (rowState_succ next hmore n).symm, hsized, hsize, hview, fun i hi => ?_⟩
      rw [hrows i hi, h.row_modifyRow (act st x) (hact _ st x) (by omega) hi]
      rcases Nat.lt_trichotomy i y with hlt | rfl | hgt
      · rw [if_neg (by omega), if_neg (by omega), if_neg (by omega)]
      · rw [if_neg (by omega), if_pos rfl, Nat.sub_self, if_pos ⟨by omega, hmore⟩, if_pos rfl]
        rfl
      · have hstate : rowState more next x st (i - y) = rowState more next 0 (next st x) (i - (y + 1)) := by
          rw [show i - y = i - (y + 1) + 1 by omega, rowState_succ next hmore]
        rw [hstate, if_neg (by omega : ¬ i = y), if_neg (by omega : ¬ i = y), ite_self]
        have hrange : (y + 1 ≤ i ∧ i < y + 1 + n) ↔ (y ≤ i ∧ i < y + (n + 1)) := by omega
        simp only [hrange]
    · rw [if_neg hmore]
      refine ⟨(rowState_done (by simpa using hmore) (n + 1)).symm, h, rfl, rfl, fun i hi => ?_⟩
      rw [rowState_done (by simpa using hmore), if_neg (fun hh => hmore hh.2)]

end EachRow

/-! ## Filling -/

/-- `fill_result`. -/
structure FillResult where
  lengthRead : Nat := 0
  cellsModified : Nat := 0
deriving DecidableEq, Repr

/-- How many of `count` cells are in a row of `width` columns, from column `x` on. -/
def cellsInRow (width count x : Nat) : Nat := if count < width - x then count else width - x

/-- The cells that are left behind a row, and the result. -/
def fillNext (width : Nat) (st : Nat × FillResult) (x : Nat) : Nat × FillResult :=
  let n := cellsInRow width st.1 x
  (st.1 - n, { lengthRead := st.2.lengthRead + n, cellsModified := st.2.cellsModified + n })

/-- The loop of `fill_char` over the rows, with the cells that are left and the result. -/
def fillCharRows (cp : Char32) (width : Nat) : Nat → Nat → Nat → Nat × FillResult → ScreenBuffer →
    (Nat × FillResult) × ScreenBuffer :=
  eachRow (fun st => 0 < st.1) (fillNext width) fun st x => fillCharRow cp x (cellsInRow width st.1 x)

def fillChar (s : ScreenBuffer) (cp : Char32) (start : Coord) (count : Nat) : FillResult × ScreenBuffer :=
  if s.validY start.y = false ∨ start.x < 0 then ({}, s)
  else if start.x ≥ s.size.x then ({}, s)
  else
    let ((_, r), s) := fillCharRows cp s.size.x.toNat (s.size.y - start.y).toNat start.x.toNat start.y.toNat (count, {}) s
    (r, s)

/-! ## The cells that are filled -/

variable {s : ScreenBuffer} {cp : Char32} {start : Coord} {count : Nat}

/-- The cell is one of the `count` cells from `start` on, in linear order. -/
def Requested (s : ScreenBuffer) (start : Coord) (count : Nat) (x y : Int) : Prop :=
  s.valid start = true ∧ start.y * s.size.x + start.x ≤ y * s.size.x + x ∧
    y * s.size.x + x < start.y * s.size.x + start.x + count

instance (s : ScreenBuffer) (start : Coord) (count : Nat) (x y : Int) : Decidable (s.Requested start count x y) :=
  inferInstanceAs (Decidable (_ ∧ _ ∧ _))

/-- How many of these cells the buffer has. -/
def requestedCount (s : ScreenBuffer) (start : Coord) (count : Nat) : Nat :=
  if s.valid start then min count (s.size.y * s.size.x - (start.y * s.size.x + start.x)).toNat else 0

/-- Every cell after `cp` has been filled into the requested ones. -/
def filledCell (s : ScreenBuffer) (cp : Char32) (start : Coord) (count : Nat) (x y : Int) : Cell :=
  let old := s.cellAt x y
  if s.Requested start count x y then ⟨[cp], 1, old.attr⟩
  else if s.Requested start count (x + 1) y ∧ old.cols = 2 ∨ s.Requested start count (x - 1) y ∧ old.cols = 0 then old.cut
  else old

/-- The cells that are left in front of a row, and the result so far. -/
theorem rowState_fill {W x : Nat} (hx : x < W) (count : Nat) : ∀ i : Nat,
    rowState (fun st : Nat × FillResult => decide (0 < st.1)) (fillNext W) x (count, {}) i =
      (count - (i * W - x), ⟨min count (i * W - x), min count (i * W - x)⟩)
  | 0 => by simp [rowState]
  | i + 1 => by
    have hnext : (i + 1) * W - x = (i * W - x) + (W - if i = 0 then x else 0) := by
      rw [Nat.succ_mul]
      by_cases hi : i = 0
      · rw [if_pos hi, hi]
        omega
      · have := Nat.le_mul_of_pos_left W (Nat.pos_of_ne_zero hi)
        rw [if_neg hi]
        omega
    rw [rowState, rowState_fill hx count i, hnext]
    unfold fillNext cellsInRow
    dsimp only
    generalize i * W - x = d
    generalize W - (if i = 0 then x else 0) = e
    simp only [decide_eq_true_eq]
    split_ifs <;> simp only [Prod.mk.injEq, FillResult.mk.injEq] <;> omega

/-- The requested cells of a row, for a position in the buffer. -/
theorem requested_row {W x₀ x : Nat} (y₀ y : Nat) (hx₀ : x₀ < W) (hx : x < W) (count : Nat) :
    (y₀ * W + x₀ ≤ y * W + x ∧ y * W + x < y₀ * W + x₀ + count) ↔
      y₀ ≤ y ∧ 0 < count - ((y - y₀) * W - x₀) ∧ (if y = y₀ then x₀ else 0) ≤ x ∧
        x < (if y = y₀ then x₀ else 0) + cellsInRow W (count - ((y - y₀) * W - x₀)) (if y = y₀ then x₀ else 0) := by
  unfold cellsInRow
  rcases Nat.lt_trichotomy y y₀ with hlt | rfl | hgt
  · have hle : (y + 1) * W ≤ y₀ * W := Nat.mul_le_mul_right W hlt
    rw [Nat.succ_mul] at hle
    omega
  · rw [Nat.sub_self, Nat.zero_mul, if_pos rfl]
    split <;> omega
  · have hsplit : y * W = y₀ * W + (y - y₀) * W := by rw [← Nat.add_mul, Nat.add_sub_cancel' (Nat.le_of_lt hgt)]
    have hge : W ≤ (y - y₀) * W := Nat.le_mul_of_pos_left W (by omega)
    rw [if_neg (by omega), hsplit]
    generalize (y - y₀) * W = d at *
    split <;> omega

theorem valid_iff : s.valid start = true ↔ (0 ≤ start.x ∧ start.x < s.size.x) ∧ 0 ≤ start.y ∧ start.y < s.size.y := by
  unfold valid
  simp only [Bool.and_eq_true, decide_eq_true_eq]
  omega

/-- The positions of cells, counted in linear order. -/
theorem requested_iff (hv : s.valid start = true) (count x y : Nat) : s.Requested start count x y ↔
    start.y.toNat * s.size.x.toNat + start.x.toNat ≤ y * s.size.x.toNat + x ∧
      y * s.size.x.toNat + x < start.y.toNat * s.size.x.toNat + start.x.toNat + count := by
  obtain ⟨⟨h1, h2⟩, h3, h4⟩ := valid_iff.mp hv
  have hstart : ((start.y.toNat * s.size.x.toNat + start.x.toNat : Nat) : Int) = start.y * s.size.x + start.x := by
    rw [Nat.cast_add, Nat.cast_mul, Int.toNat_of_nonneg h1, Int.toNat_of_nonneg h3, Int.toNat_of_nonneg (by omega)]
  have hcell : ((y * s.size.x.toNat + x : Nat) : Int) = y * s.size.x + x := by
    rw [Nat.cast_add, Nat.cast_mul, Int.toNat_of_nonneg (by omega : 0 ≤ s.size.x)]
  unfold Requested
  rw [← hstart, ← hcell]
  simp only [hv, true_and]
  omega

/-- The loop over the rows, which is not entered for a position outside of the buffer. -/
theorem fillChar_eq (s : ScreenBuffer) (cp : Char32) (start : Coord) (count : Nat) : s.fillChar cp start count =
    if s.valid start then
      let res := fillCharRows cp s.size.x.toNat (s.size.y - start.y).toNat start.x.toNat start.y.toNat (count, {}) s
      (res.1.2, res.2)
    else ({}, s) := by
  have hy : s.validY start.y = true ↔ 0 ≤ start.y ∧ start.y < s.size.y := by
    simp only [validY, Bool.and_eq_true, decide_eq_true_eq]
  have hv : s.valid start = true ↔ s.validY start.y = true ∧ ¬ start.x < 0 ∧ ¬ start.x ≥ s.size.x := by
    rw [valid_iff, hy]
    omega
  unfold fillChar
  simp only [hv]
  by_cases h1 : s.validY start.y = true
  · simp only [h1, true_and, Bool.true_eq_false, false_or]
    split_ifs <;> first | rfl | omega
  · simp [h1]

variable (cp) in
/-- A row after the call: the cells that are in the row, from the first of its columns on. -/
theorem row_fillChar (h : s.Sized) (hv : s.valid start = true) (count : Nat) {y : Nat} (hy : (y : Int) < s.size.y) :
    let x := if y = start.y.toNat then start.x.toNat else 0
    let left := count - ((y - start.y.toNat) * s.size.x.toNat - start.x.toNat)
    (s.fillChar cp start count).2.row y =
      if start.y.toNat ≤ y ∧ 0 < left then fillCharRow cp x (cellsInRow s.size.x.toNat left x) (s.row y) else s.row y := by
  obtain ⟨⟨h1, h2⟩, h3, h4⟩ := valid_iff.mp hv
  intro x left
  obtain ⟨-, -, -, -, hrows⟩ := eachRow_spec (fun st : Nat × FillResult => decide (0 < st.1)) (fillNext s.size.x.toNat)
    (fun st x => fillCharRow cp x (cellsInRow s.size.x.toNat st.1 x))
    (fun w st x r hr => showsSome_fillCharRow hr cp x _) (s.size.y - start.y).toNat start.x.toNat start.y.toNat
    (count, {}) h (by omega)
  rw [fillChar_eq, if_pos hv]
  refine (hrows y hy).trans ?_
  rw [rowState_fill (by omega)]
  simp only [decide_eq_true_eq]
  refine if_congr ?_ rfl rfl
  omega

/-- Every cell after the call, with the default attribute where a character has been filled in. -/
theorem cellAt_fillChar (h : s.Sized) (cp : Char32) (start : Coord) (count : Nat) {x y : Nat} (hx : (x : Int) < s.size.x)
    (hy : (y : Int) < s.size.y) : (s.fillChar cp start count).2.cellAt x y =
      if s.Requested start count x y then ⟨[cp], 1, {}⟩ else s.filledCell cp start count x y := by
  have hrow := showsSome_row h hy
  have hcases := hrow.cell_cases (show x < s.size.x.toNat by omega)
  by_cases hv : s.valid start = true
  · obtain ⟨⟨h1, h2⟩, h3, h4⟩ := valid_iff.mp hv
    have hreq (x : Nat) := requested_iff hv count x y
    have hin (x : Nat) (hx : x < s.size.x.toNat) :=
      requested_row start.y.toNat y (show start.x.toNat < s.size.x.toNat by omega) hx count
    have hres := row_fillChar cp h hv count hy
    have hroom : (if y = start.y.toNat then start.x.toNat else 0) < s.size.x.toNat := by split <;> omega
    dsimp only at hres
    generalize (if y = start.y.toNat then start.x.toNat else 0) = a at *
    generalize count - ((y - start.y.toNat) * s.size.x.toNat - start.x.toNat) = left at *
    obtain ⟨cp₀, -, hcase⟩ := hcases
    have hlead : ((s.row y).cellAt x).cols = 2 → x + 1 < s.size.x.toNat := by
      intro h2
      change (s.row y).glyphWidth x = 2 at h2
      omega
    have htrail : ((s.row y).cellAt x).cols = 0 → 0 < x := by
      intro h0
      change (s.row y).glyphWidth x = 0 at h0
      omega
    unfold filledCell cellAt
    rw [hres, Int.toNat_natCast]
    generalize hn : cellsInRow s.size.x.toNat left a = n at *
    have hnext : (s.Requested start count (x + 1) y ∧ ((s.row y).cellAt x).cols = 2) ↔
        (start.y.toNat ≤ y ∧ 0 < left ∧ a ≤ x + 1 ∧ x + 1 < a + n) ∧ ((s.row y).cellAt x).cols = 2 :=
      and_congr_left fun h2 => (hreq (x + 1)).trans (hin (x + 1) (hlead h2))
    have hprev : (s.Requested start count (x - 1) y ∧ ((s.row y).cellAt x).cols = 0) ↔
        (start.y.toNat ≤ y ∧ 0 < left ∧ a ≤ x - 1 ∧ x - 1 < a + n) ∧ ((s.row y).cellAt x).cols = 0 := by
      refine and_congr_left fun h0 => ?_
      have hx0 := htrail h0
      rw [show (x : Int) - 1 = ((x - 1 : Nat) : Int) by omega, hreq, hin (x - 1) (by omega)]
    simp only [hreq x, hin x (by omega), hnext, hprev]
    by_cases hmem : start.y.toNat ≤ y ∧ 0 < left
    · have hfit : 0 < n ∧ a + n ≤ s.size.x.toNat := by
        rw [← hn]
        unfold cellsInRow
        split <;> omega
      rw [if_pos hmem, cellAt_fillCharRow hrow cp hfit.1 hfit.2 (by omega)]
      simp only [hmem, true_and]
      split_ifs <;> first | rfl | omega
    · rw [if_neg hmem]
      have hno (p q : Prop) : ¬ (start.y.toNat ≤ y ∧ 0 < left ∧ p ∧ q) := fun hh => hmem ⟨hh.1, hh.2.1⟩
      simp only [hno, if_false, false_and, or_false]
  · have hnone (x y : Int) : ¬ s.Requested start count x y := fun hr => hv hr.1
    rw [fillChar_eq, if_neg hv, if_neg (hnone _ _), filledCell]
    simp only [hnone, if_false, false_and, or_false]

theorem result_fillChar (h : s.Sized) (cp : Char32) (start : Coord) (count : Nat) :
    (s.fillChar cp start count).1 = ⟨s.requestedCount start count, s.requestedCount start count⟩ := by
  rw [fillChar_eq, requestedCount]
  by_cases hv : s.valid start = true
  · obtain ⟨⟨h1, h2⟩, h3, h4⟩ := valid_iff.mp hv
    obtain ⟨hst, -⟩ := eachRow_spec (fun st : Nat × FillResult => decide (0 < st.1)) (fillNext s.size.x.toNat)
      (fun st x => fillCharRow cp x (cellsInRow s.size.x.toNat st.1 x))
      (fun w st x r hr => showsSome_fillCharRow hr cp x _) (s.size.y - start.y).toNat start.x.toNat start.y.toNat
      (count, {}) h (by omega)
    rw [rowState_fill (by omega)] at hst
    rw [if_pos hv, if_pos hv]
    have hleft : (s.size.y - start.y).toNat * s.size.x.toNat - start.x.toNat =
        (s.size.y * s.size.x - (start.y * s.size.x + start.x)).toNat := by
      have hmul : (((s.size.y - start.y).toNat * s.size.x.toNat : Nat) : Int) = s.size.y * s.size.x - start.y * s.size.x := by
        rw [Nat.cast_mul, Int.toNat_of_nonneg (by omega), Int.toNat_of_nonneg (by omega), Int.sub_mul]
      omega
    rw [← hleft]
    exact congrArg Prod.snd hst
  · rw [if_neg hv, if_neg hv]

/-- `fill_char` fills exactly the requested cells, counts them, and keeps
every attribute exactly when each of these cells has the default attribute. -/
theorem fill_char_keeps_attributes_iff {sz : Coord} (hx : 1 ≤ sz.x ∧ sz.x ≤ 0x7FFF) (hy : 1 ≤ sz.y ∧ sz.y ≤ 0x7FFF)
    (history : List Op) (cp : Char32) (start : Coord) (count : Nat) :
    let s := run (ofSize sz) history
    ((s.fillChar cp start count).1 = ⟨s.requestedCount start count, s.requestedCount start count⟩ ∧
      ∀ x y : Int, 0 ≤ x ∧ x < s.size.x → 0 ≤ y ∧ y < s.size.y →
        (s.fillChar cp start count).2.cellAt x y = s.filledCell cp start count x y) ↔
    ∀ x y : Int, 0 ≤ x ∧ x < s.size.x → 0 ≤ y ∧ y < s.size.y → s.Requested start count x y → (s.cellAt x y).attr = ⟨0x07⟩ := by
  intro s
  have h : s.Sized := (sim_run history (sim_ofSize hx hy)).sized
  have hcell (x y : Int) (hx : 0 ≤ x ∧ x < s.size.x) (hy : 0 ≤ y ∧ y < s.size.y) :
      (s.fillChar cp start count).2.cellAt x y =
        if s.Requested start count x y then ⟨[cp], 1, {}⟩ else s.filledCell cp start count x y := by
    have hnat := cellAt_fillChar h cp start count (x := x.toNat) (y := y.toNat) (by omega) (by omega)
    rwa [Int.toNat_of_nonneg hx.1, Int.toNat_of_nonneg hy.1] at hnat
  constructor
  · rintro ⟨-, hall⟩ x y hx hy hreq
    have hsame := (hcell x y hx hy).symm.trans (hall x y hx hy)
    rw [if_pos hreq, filledCell, if_pos hreq] at hsame
    exact (congrArg Cell.attr hsame).symm
  · intro hattr
    refine ⟨result_fillChar h cp start count, fun x y hx hy => ?_⟩
    rw [hcell x y hx hy]
    split_ifs with hreq
    · rw [filledCell, if_pos hreq, hattr x y hx hy hreq]
    · rfl

/-- Three cells across the end of a row, the last of which was a half of a wide glyph. -/
theorem fill_char_keeps_attributes_iff_wide :
    let s := run (ofSize ⟨3, 2⟩) [.writeGlyph ⟨0, 1⟩ 0x4E2D 2 7]
    (s.fillChar 0x78 ⟨1, 0⟩ 3).1 = ⟨3, 3⟩ ∧ (s.fillChar 0x78 ⟨1, 0⟩ 3).2.cellAt 1 1 = ⟨[0x20], 1, ⟨7⟩⟩ := by
  intro s
  have h := (@fill_char_keeps_attributes_iff ⟨3, 2⟩ (by decide) (by decide) [.writeGlyph ⟨0, 1⟩ 0x4E2D 2 7] 0x78 ⟨1, 0⟩ 3).mpr
    (by
      intro x y ⟨hx0, hx1⟩ ⟨hy0, hy1⟩ _
      change x < 3 at hx1
      change y < 2 at hy1
      obtain rfl | rfl | rfl : x = 0 ∨ x = 1 ∨ x = 2 := by omega
      all_goals
        obtain rfl | rfl : y = 0 ∨ y = 1 := by omega
        all_goals decide)
  exact ⟨h.1, h.2 1 1 (by decide) (by decide)⟩

/-- A cell with another attribute loses it. -/
theorem fill_char_resets_attribute :
    let s := run (ofSize ⟨1, 1⟩) [.setAttr ⟨0, 0⟩ 0x1E]
    (s.cellAt 0 0).attr = ⟨0x1E⟩ ∧ (s.fillChar 0x78 ⟨0, 0⟩ 1).2.cellAt 0 0 = ⟨[0x78], 1, ⟨0x07⟩⟩ ∧
      s.filledCell 0x78 ⟨0, 0⟩ 1 0 0 = ⟨[0x78], 1, ⟨0x1E⟩⟩ := by
  decide

end Corehost.ScreenBuffer
