import Corehost.Row.CopyEdges
import Corehost.Screen.Linear

/-!
# The buffer in a new size

What `resize` (`screen_buffer.hpp`) makes of the rows and cells of a buffer.

* `row_resize`, `cellAt_resize`: every row and every cell after the call;
* `Resized`: the buffer in its new size, with the cells of the old one;
* `resize_keeps_cells_iff`: when `resize` leaves that, and can be undone.
-/

namespace Corehost

open Lib Lib.Strip

namespace ScreenBufferRow

variable {r src : ScreenBufferRow} {w sw c : Nat}

/-- A copy of a whole row stops at the end of the shorter row. -/
theorem copyFrom_whole (r src : ScreenBufferRow) :
    r.copyFrom src 0 0 src.width = r.copyFrom src 0 0 (min src.width r.width) := by
  rcases Nat.lt_or_ge r.width src.width with hlt | hge
  · obtain ⟨k, hk⟩ : ∃ k, src.width = r.width + (k + 1) := ⟨src.width - r.width - 1, by omega⟩
    rw [Nat.min_eq_right (Nat.le_of_lt hlt)]
    unfold copyFrom
    rw [hk, List.range_add, List.takeWhile_append_of_pos fun i hi => ?_, List.range_succ_eq_map, List.map_cons,
      List.takeWhile_cons_of_neg (by simp), List.append_nil, List.takeWhile_eq_self_iff.mpr fun i hi => ?_]
    all_goals
      have := List.mem_range.mp hi
      simp only [Bool.and_eq_true, decide_eq_true_eq]
      omega
  · rw [Nat.min_eq_left hge]

end ScreenBufferRow

namespace ScreenBuffer

open ScreenBufferRow

variable {s : ScreenBuffer} {size : Coord}

/-- A size with at least one column and one row. -/
def fitted (size : Coord) : Coord := ⟨max 1 size.x, max 1 size.y⟩

/-- The size does not change. -/
theorem resize_same (h : fitted size = s.size) : s.resize size = s := by
  have hx := congrArg Coord.x h
  have hy := congrArg Coord.y h
  dsimp only [fitted] at hx hy
  unfold resize
  dsimp only
  rw [if_pos ⟨by split <;> omega, by split <;> omega⟩]

/-- A row after the size has changed. -/
def resizedRow (s : ScreenBuffer) (size : Coord) (y : Nat) : ScreenBufferRow :=
  let r := ScreenBufferRow.ofWidth (fitted size).x.toNat
  if (y : Int) < s.size.y then r.copyFrom (s.row y) 0 0 s.size.x.toNat else r

theorem resize_eq (h : s.Sized) (hx : size.x ≤ 0x7FFF) (hne : fitted size ≠ s.size) :
    s.resize size = { s with
      size := fitted size
      viewport := (s.viewport.clampToBuffer (fitted size)).2
      rows := (List.range (min s.size.y (fitted size).y).toNat).foldl
        (fun rows y => rows.modify (0 + y) fun r => r.copyFrom (s.lines.getD y {}) 0 0 s.size.x.toNat)
        (List.replicate (fitted size).y.toNat (ScreenBufferRow.ofWidth (fitted size).x.toNat))
      rowOrigin := 0 } := by
  have hw := h.width
  obtain ⟨-, hlines, -, hsize, hview, hsaved⟩ := h.linearizeRows
  have hfx : (if size.x < 1 then 1 else size.x) = (fitted size).x := by unfold fitted; split <;> dsimp only <;> omega
  have hfy : (if size.y < 1 then 1 else size.y) = (fitted size).y := by unfold fitted; split <;> dsimp only <;> omega
  have hfw : 1 ≤ (fitted size).x ∧ (fitted size).x ≤ 0x7FFF := by dsimp only [fitted]; omega
  have hcond : ¬ ((fitted size).x = s.size.x ∧ (fitted size).y = s.size.y) := fun hh =>
    hne (congrArg₂ Coord.mk hh.1 hh.2)
  have hmin : (if s.size.y < (fitted size).y then s.size.y else (fitted size).y) = min s.size.y (fitted size).y := by
    split <;> omega
  unfold resize ensureRows
  simp only [hfx, hfy, if_neg hcond, hsize, hview, hmin, foldl_rows, hlines, hsaved, Nat.zero_add,
    u16_of_lt (show s.size.x.toNat < 0x10000 by omega), u16_of_lt (show (fitted size).x.toNat < 0x10000 by omega)]

theorem row_resize (h : s.Sized) (hx : size.x ≤ 0x7FFF) (hne : fitted size ≠ s.size) {y : Nat}
    (hy : (y : Int) < (fitted size).y) : (s.resize size).row y = s.resizedRow size y := by
  have hh := h.height
  rw [resize_eq h hx hne, row, physicalRowIndex]
  dsimp only
  have hlen : ((List.range (min s.size.y (fitted size).y).toNat).foldl
      (fun rows y => rows.modify (0 + y) fun r : ScreenBufferRow => r.copyFrom (s.lines.getD y {}) 0 0 s.size.x.toNat)
      (List.replicate (fitted size).y.toNat (ScreenBufferRow.ofWidth (fitted size).x.toNat))).length =
        (fitted size).y.toNat := (length_foldl_modify _ (0 + ·) _ _).trans (List.length_replicate ..)
  rw [hlen, if_neg (by omega), Int.toNat_natCast, Nat.zero_add, Nat.mod_eq_of_lt (by omega), List.getD_eq_getElem?_getD,
    getElem?_foldl_modify fun y (r : ScreenBufferRow) => r.copyFrom (s.lines.getD y {}) 0 0 s.size.x.toNat,
    List.getElem?_replicate_of_lt (by omega), Nat.sub_zero]
  unfold resizedRow
  by_cases hold : (y : Int) < s.size.y
  · have hline := (h.row_eq hold).1
    rw [Int.toNat_natCast] at hline
    rw [if_pos (by omega), if_pos hold, Option.map_some, Option.getD_some, List.getD_eq_getElem?_getD, hline]
    rfl
  · rw [if_neg (by omega), if_neg hold, Option.getD_some]

/-! ## The cells after the call -/

theorem showsSome_ofWidth {w : Nat} (hw : w ≤ 0x7FFF) : (ScreenBufferRow.ofWidth w).ShowsSome w :=
  ⟨_, _, Shows.resetFill {} hw _ _⟩

theorem cellAt_ofWidth {w c : Nat} (hw : w ≤ 0x7FFF) (hc : c < w) :
    (ScreenBufferRow.ofWidth w).cellAt c = ⟨[0x20], 1, ⟨0x07⟩⟩ := by
  have hwidth := (showsSome_ofWidth hw).width_eq
  have hcell := getElem?_visible (ScreenBufferRow.ofWidth w) (show c < _ by rw [hwidth]; exact hc)
  have hfilled : Filled w 0x20 0x07 (ScreenBufferRow.ofWidth w) := ⟨{}, rfl⟩
  rw [hfilled.visible_eq hw, List.getElem?_replicate_of_lt hc, Option.some_inj] at hcell
  exact hcell.symm

/-- A wide glyph does not begin in the last column. -/
theorem lead_not_last (h : s.Sized) {x y : Int} (hx : 0 ≤ x) (hy : 0 ≤ y ∧ y < s.size.y) (h2 : (s.cellAt x y).cols = 2) :
    x + 1 ≠ s.size.x := by
  intro heq
  have := ((showsSome_row h hy.2).trail_of_lead (by omega) h2).1
  omega

variable (size) in
theorem cellAt_resize (h : s.Sized) (hsx : size.x ≤ 0x7FFF) (hne : fitted size ≠ s.size) {x y : Int}
    (hx : 0 ≤ x ∧ x < (fitted size).x) (hy : 0 ≤ y ∧ y < (fitted size).y) :
    (s.resize size).cellAt x y = if x < s.size.x ∧ y < s.size.y then
      copiedCell (s.row y) 0 (min s.size.x (fitted size).x).toNat (fitted size).x.toNat x.toNat
    else ⟨[0x20], 1, ⟨0x07⟩⟩ := by
  have hw := h.width
  have hfw : (fitted size).x ≤ 0x7FFF := by dsimp only [fitted]; omega
  obtain ⟨y, rfl⟩ := Int.eq_ofNat_of_zero_le hy.1
  have hblank := cellAt_ofWidth (w := (fitted size).x.toNat) (c := x.toNat) (by omega) (by omega)
  unfold cellAt
  rw [row_resize h hsx hne hy.2]
  unfold resizedRow
  dsimp only
  by_cases hold : (y : Int) < s.size.y
  · have hsrc := showsSome_row h hold
    have hr := showsSome_ofWidth (w := (fitted size).x.toNat) (by omega)
    have hmin : min (s.row y).width (ScreenBufferRow.ofWidth (fitted size).x.toNat).width =
        (min s.size.x (fitted size).x).toNat := by
      rw [hsrc.width_eq, hr.width_eq]
      omega
    have hfirst : ((s.row y).cellAt 0).cols ≠ 0 := fun h0 =>
      absurd (hsrc.lead_of_trail (show 0 < s.size.x.toNat by omega) h0).1 (Nat.lt_irrefl 0)
    rw [if_pos hold, ← hsrc.width_eq, copyFrom_whole, hmin]
    by_cases hin : x < s.size.x
    · have hcell := cellAt_copyFrom_mem hr hsrc (by omega)
        (show 0 + (min s.size.x (fitted size).x).toNat ≤ s.size.x.toNat by omega)
        (show 0 + (min s.size.x (fitted size).x).toNat ≤ (fitted size).x.toNat by omega)
        (show x.toNat < (min s.size.x (fitted size).x).toNat by omega) fun _ => hfirst
      rw [if_pos ⟨hin, hold⟩]
      rwa [Nat.zero_add, Nat.sub_zero] at hcell
    · have hlast : ((s.row y).cellAt (0 + (min s.size.x (fitted size).x).toNat - 1)).cols ≠ 2 := by
        intro h2
        have := (hsrc.trail_of_lead (by omega) h2).1
        omega
      have hcell := cellAt_copyFrom_right hr hsrc (by omega)
        (show 0 + (min s.size.x (fitted size).x).toNat ≤ s.size.x.toNat by omega)
        (show 0 + (min s.size.x (fitted size).x).toNat ≤ (fitted size).x.toNat by omega)
        (show 0 + (min s.size.x (fitted size).x).toNat ≤ x.toNat by omega) (by omega) (.inl hlast)
      rw [if_neg (fun hh => hin hh.1), hcell, hblank, if_neg (fun hh => absurd hh.2.2.2 Nat.one_ne_zero)]
  · rw [if_neg hold, if_neg (fun hh => hold hh.2), hblank]

/-! ## What is kept -/

/-- The cells of the old size, cut at the new right edge, and blanks behind them. -/
def resizedCell (s : ScreenBuffer) (size : Coord) (x y : Int) : Cell :=
  if x < s.size.x ∧ y < s.size.y then
    if (s.cellAt x y).cols = 2 ∧ x + 1 = size.x then { s.cellAt x y with cols := 1 } else s.cellAt x y
  else ⟨[0x20], 1, ⟨0x07⟩⟩

structure Resized (s s' : ScreenBuffer) (newSize : Coord) : Prop where
  size : s'.size = newSize
  origin : s'.rowOrigin = 0
  viewport : s'.viewport.Inside newSize
  cells : ∀ x y : Int, 0 ≤ x ∧ x < newSize.x → 0 ≤ y ∧ y < newSize.y → s'.cellAt x y = s.resizedCell newSize x y

/-- The same size, viewport and cells. -/
structure SameScreen (s s' : ScreenBuffer) : Prop where
  size : s'.size = s.size
  viewport : s'.viewport = s.viewport
  cells : ∀ x y : Int, 0 ≤ x ∧ x < s.size.x → 0 ≤ y ∧ y < s.size.y → s'.cellAt x y = s.cellAt x y

/-- Both halves of a wide glyph have one attribute, in the part of the buffer that is kept. -/
def HalvesAgree (s : ScreenBuffer) (size : Coord) : Prop :=
  ∀ x y : Int, 0 ≤ x ∧ x < s.size.x ∧ x < size.x → 0 ≤ y ∧ y < s.size.y ∧ y < size.y → (s.cellAt x y).cols = 0 →
    (s.cellAt x y).attr = (s.cellAt (x - 1) y).attr

variable (size) in
theorem cellAt_resize_eq_iff (h : s.Sized) (hsx : size.x ≤ 0x7FFF) (hne : fitted size ≠ s.size) {x y : Int}
    (hx : 0 ≤ x ∧ x < (fitted size).x) (hy : 0 ≤ y ∧ y < (fitted size).y) :
    (s.resize size).cellAt x y = s.resizedCell (fitted size) x y ↔ (x < s.size.x ∧ y < s.size.y →
      (s.cellAt x y).cols = 0 → (s.cellAt x y).attr = (s.cellAt (x - 1) y).attr) := by
  rw [cellAt_resize size h hsx hne hx hy, resizedCell]
  by_cases hold : x < s.size.x ∧ y < s.size.y
  · have hlead := lead_not_last h hx.1 ⟨hy.1, hold.2⟩
    have hprev : s.cellAt (x - 1) y = (s.row y).cellAt (0 + x.toNat - 1) := by
      rw [cellAt, show (x - 1).toNat = 0 + x.toNat - 1 by omega]
    have hcell : s.cellAt x y = (s.row y).cellAt (0 + x.toNat) := by rw [cellAt, Nat.zero_add]
    rw [hcell] at hlead
    rw [if_pos hold, if_pos hold, hprev, hcell]
    by_cases hlast : ((s.row y).cellAt (0 + x.toNat)).cols = 2 ∧ x + 1 = (fitted size).x
    · have hmin : (min s.size.x (fitted size).x).toNat = (fitted size).x.toNat ∧
          x.toNat + 1 = (fitted size).x.toNat := by omega
      rw [if_pos hlast, copiedCell]
      dsimp only
      rw [if_neg (by omega), if_pos ⟨hlast.1, by omega, hmin.1⟩]
      exact ⟨fun _ _ h0 => absurd h0 (by omega), fun _ => rfl⟩
    · rw [if_neg hlast, copiedCell_eq_iff (by omega)]
      exact ⟨fun h _ => h, fun h => h hold⟩
  · rw [if_neg hold, if_neg hold]
    exact ⟨fun _ hh => absurd hh hold, fun _ => rfl⟩

theorem fitted_of_sized (h : s.Sized) : fitted s.size = s.size := by
  have hw := h.width
  have hh := h.height
  exact congrArg₂ Coord.mk (show max 1 s.size.x = s.size.x by omega) (show max 1 s.size.y = s.size.y by omega)

/-- Nothing is cut in a size with no fewer columns. -/
theorem resizedCell_self (h : s.Sized) {newSize : Coord} (hn : s.size.x ≤ newSize.x) {x y : Int}
    (hx : 0 ≤ x ∧ x < s.size.x) (hy : 0 ≤ y ∧ y < s.size.y) : s.resizedCell newSize x y = s.cellAt x y := by
  rw [resizedCell, if_pos ⟨hx.2, hy.2⟩, if_neg]
  rintro ⟨h2, hlast⟩
  exact lead_not_last h hx.1 hy h2 (by omega)

theorem clampToBuffer_of_inside {v : ConsoleViewport} {newSize : Coord} (hx : newSize.x ≤ 0x7FFF)
    (hy : newSize.y ≤ 0x7FFF) (h : v.Inside newSize) : (v.clampToBuffer newSize).2 = v := by
  have hside {lo hi n : Int} (hn : n ≤ 0x7FFF) (h0 : 0 ≤ lo) (hlh : lo ≤ hi) (hhi : hi < n) :
      clamp lo 0 (i16 (validDimension n - clampedDimension (hi - lo + 1) (validDimension n))) = lo ∧
        i16 (lo + clampedDimension (hi - lo + 1) (validDimension n) - 1) = hi := by
    have hd : validDimension n = n := by unfold validDimension; omega
    have hc : clampedDimension (hi - lo + 1) n = hi - lo + 1 := clamp_of_mem (by omega) (by omega)
    rw [hd, hc, i16_of_range (by omega) (by omega), i16_of_range (by omega) (by omega)]
    exact ⟨clamp_of_mem (by omega) (by omega), by omega⟩
  obtain ⟨h1, h2⟩ := hside hx h.left h.leftRight h.right
  obtain ⟨h3, h4⟩ := hside hy h.top h.topBottom h.bottom
  unfold ConsoleViewport.clampToBuffer ConsoleViewport.setRect
  dsimp only
  rw [h1, h2, h3, h4]

/-- A larger size, and back to the old one. -/
theorem sameScreen_resize (h : s.Sized) (hin : s.viewport.Inside s.size) (hsx : size.x ≤ 0x7FFF) (hsy : size.y ≤ 0x7FFF)
    (hlarge : s.size.x ≤ (fitted size).x ∧ s.size.y ≤ (fitted size).y)
    (hr : Resized s (s.resize size) (fitted size)) : SameScreen s ((s.resize size).resize s.size) := by
  have hself := fitted_of_sized h
  by_cases hne : fitted size = s.size
  · rw [resize_same hne, resize_same hself]
    exact ⟨rfl, rfl, fun _ _ _ _ => rfl⟩
  · have hfx : (fitted size).x ≤ 0x7FFF := by dsimp only [fitted]; omega
    have hfy : (fitted size).y ≤ 0x7FFF := by dsimp only [fitted]; omega
    have hs : (s.resize size).Sized := ((Sim.plain h hin).resize hsx hsy).sized
    have hview : (s.resize size).viewport = s.viewport := by
      rw [resize_eq h hsx hne]
      exact clampToBuffer_of_inside hfx hfy ⟨hin.left, hin.leftRight, by have := hin.right; omega, hin.top, hin.topBottom,
        by have := hin.bottom; omega⟩
    have hback : fitted s.size ≠ (s.resize size).size := by
      rw [hself, hr.size]
      exact Ne.symm hne
    have hcell {x y : Int} (hx : 0 ≤ x ∧ x < s.size.x) (hy : 0 ≤ y ∧ y < s.size.y) :
        (s.resize size).cellAt x y = s.cellAt x y :=
      (hr.cells x y (by omega) (by omega)).trans (resizedCell_self h hlarge.1 hx hy)
    have heq := resize_eq hs h.width.2 hback
    refine ⟨?_, ?_, fun x y hx hy => ?_⟩
    · rw [heq, hself]
    · rw [heq, hself]
      dsimp only
      rw [hview]
      exact clampToBuffer_of_inside h.width.2 h.height.2 hin
    · have hold : x < (s.resize size).size.x ∧ y < (s.resize size).size.y := by
        rw [hr.size]
        omega
      have hcut : ¬ ((s.cellAt x y).cols = 2 ∧ x + 1 = s.size.x) := fun hh => lead_not_last h hx.1 hy hh.1 hh.2
      have hres : (s.resize size).resizedCell (fitted s.size) x y = s.cellAt x y := by
        rw [resizedCell, if_pos hold, hcell hx hy, hself, if_neg hcut]
      rw [← hres, cellAt_resize_eq_iff s.size hs h.width.2 hback (by rw [hself]; exact hx) (by rw [hself]; exact hy)]
      intro _ h0
      rw [hcell hx hy] at h0
      have hpos := ((showsSome_row h hy.2).lead_of_trail (show x.toNat < s.size.x.toNat by omega) h0).1
      rw [hcell hx hy, hcell (by omega) hy]
      exact (cellAt_resize_eq_iff size h hsx hne (by omega) (by omega)).mp (hr.cells x y (by omega) (by omega))
        ⟨hx.2, hy.2⟩ h0

/-- When the buffer has the cells of the old size after `resize`. -/
theorem resized_iff (h : s.Sized) (hin : s.viewport.Inside s.size) (hsx : size.x ≤ 0x7FFF) (hsy : size.y ≤ 0x7FFF) :
    Resized s (s.resize size) (fitted size) ↔
      if fitted size = s.size then s.rowOrigin = 0 else HalvesAgree s (fitted size) := by
  by_cases hne : fitted size = s.size
  · rw [if_pos hne, resize_same hne, hne]
    exact ⟨Resized.origin, fun h0 => ⟨rfl, h0, hin, fun x y hx hy => (resizedCell_self h (Int.le_refl _) hx hy).symm⟩⟩
  · rw [if_neg hne]
    constructor
    · intro hr x y hx hy h0
      have hcell := hr.cells x y ⟨hx.1, hx.2.2⟩ ⟨hy.1, hy.2.2⟩
      exact (cellAt_resize_eq_iff size h hsx hne ⟨hx.1, hx.2.2⟩ ⟨hy.1, hy.2.2⟩).mp hcell ⟨hx.2.1, hy.2.1⟩ h0
    · intro hagree
      have hview := ((Sim.plain h hin).resize hsx hsy).inside
      rw [resize_eq h hsx hne] at hview
      refine ⟨?_, ?_, ?_, fun x y hx hy => ?_⟩
      · rw [resize_eq h hsx hne]
      · rw [resize_eq h hsx hne]
      · rw [resize_eq h hsx hne]
        exact hview
      · rw [cellAt_resize_eq_iff size h hsx hne hx hy]
        exact fun hold h0 => hagree x y ⟨hx.1, hold.1, hx.2⟩ ⟨hy.1, hold.2, hy.2⟩ h0

/-- `resize` keeps the cells of the part that both sizes have, and can be undone
after the buffer has grown, exactly when both halves of every wide glyph in that
part have one attribute. In the same size the origin of the rows stays. -/
theorem resize_keeps_cells_iff {sz : Coord} (hx : 1 ≤ sz.x ∧ sz.x ≤ 0x7FFF) (hy : 1 ≤ sz.y ∧ sz.y ≤ 0x7FFF)
    (history : List Op) {size : Coord} (hsx : size.x ≤ 0x7FFF) (hsy : size.y ≤ 0x7FFF) :
    let s := run (ofSize sz) history
    (Resized s (s.resize size) (fitted size) ∧
      (s.size.x ≤ (fitted size).x ∧ s.size.y ≤ (fitted size).y → SameScreen s ((s.resize size).resize s.size))) ↔
    if fitted size = s.size then s.rowOrigin = 0 else HalvesAgree s (fitted size) := by
  intro s
  have hsim := sim_run history (sim_ofSize hx hy)
  rw [← resized_iff (s := s) hsim.sized hsim.inside hsx hsy]
  exact ⟨And.left, fun hr => ⟨hr, fun hlarge => sameScreen_resize hsim.sized hsim.inside hsx hsy hlarge hr⟩⟩

/-- A wide glyph of one attribute, in a buffer that grows and shrinks again. -/
theorem resize_keeps_cells_iff_wide :
    let s := run (ofSize ⟨3, 1⟩) [.writeGlyph ⟨1, 0⟩ 0x4E2D 2 0x1E]
    Resized s (s.resize ⟨4, 2⟩) ⟨4, 2⟩ ∧ SameScreen s ((s.resize ⟨4, 2⟩).resize ⟨3, 1⟩) := by
  intro s
  have h := (@resize_keeps_cells_iff ⟨3, 1⟩ (by decide) (by decide) [.writeGlyph ⟨1, 0⟩ 0x4E2D 2 0x1E] ⟨4, 2⟩ (by decide)
    (by decide)).mpr (by
      rw [if_neg (by decide)]
      intro x y ⟨hx0, hx1, _⟩ ⟨hy0, hy1, _⟩
      change x < 3 at hx1
      change y < 1 at hy1
      obtain rfl : y = 0 := by omega
      obtain rfl | rfl | rfl : x = 0 ∨ x = 1 ∨ x = 2 := by omega
      all_goals decide)
  exact ⟨h.1, h.2 (by decide)⟩

/-- The second half of a wide glyph gets the attribute of the first one. -/
theorem resize_changes_attribute :
    let s := run (ofSize ⟨2, 1⟩) [.writeGlyph ⟨0, 0⟩ 0x4E2D 2 0x07, .setAttr ⟨1, 0⟩ 0x1E]
    (s.cellAt 1 0).attr = ⟨0x1E⟩ ∧ ((s.resize ⟨3, 1⟩).cellAt 1 0).attr = ⟨0x07⟩ ∧
      ¬ Resized s (s.resize ⟨3, 1⟩) (fitted ⟨3, 1⟩) := by
  intro s
  have hold : (s.cellAt 1 0).attr = ⟨0x1E⟩ := by decide
  have hnew : ((s.resize ⟨3, 1⟩).cellAt 1 0).attr = ⟨0x07⟩ := by decide
  refine ⟨hold, hnew, fun h => ?_⟩
  have hcell := congrArg Cell.attr (h.cells 1 0 (by decide) (by decide))
  have hkept : s.resizedCell (fitted ⟨3, 1⟩) 1 0 = s.cellAt 1 0 := by decide
  rw [hkept, hold, hnew] at hcell
  exact absurd hcell (by decide)

end ScreenBuffer

end Corehost
