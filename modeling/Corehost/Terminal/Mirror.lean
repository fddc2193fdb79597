import Corehost.Session.Transfer
import Corehost.Terminal.Painting

/-!
# The cells on the display

`vt_repaint_cells` (`pipe_bridge.hpp`) writes a part of a row to the terminal, and
WriteConsoleOutput (`api_write_console_output`, `api_handlers.hpp`) repaints what
it has changed. A display that showed the buffer before shows it afterwards.
-/

namespace Corehost

open Lib
open ScreenBufferRow (Cell runCells overwriteCells overwriteCell)

/-- What a repainting leaves alone. -/
structure Display.SameFrame (t t' : Display) : Prop where
  width : t'.width = t.width
  count : t'.lines.length = t.lines.length
  top : t'.top = t.top
  bottom : t'.bottom = t.bottom
  saved : t'.saved = t.saved

namespace Display.SameFrame

variable {t t' t'' : Display}

theorem refl (t : Display) : t.SameFrame t := ⟨rfl, rfl, rfl, rfl, rfl⟩

theorem trans (h : t.SameFrame t') (h' : t'.SameFrame t'') : t.SameFrame t'' :=
  ⟨h'.width.trans h.width, h'.count.trans h.count, h'.top.trans h.top, h'.bottom.trans h.bottom, h'.saved.trans h.saved⟩

end Display.SameFrame

namespace ScreenBuffer

open Display (Complete)

variable {cw : Char32 → Int} {s : ScreenBuffer} {x y left right : Int} {last : UInt16}

/-! ## A row -/

/-- What a display that shows the whole row shows of a column. -/
def shownCell (s : ScreenBuffer) (y x : Int) : Cell := s.paintedCell y 0 (s.size.x - 1) x

def shownRow (s : ScreenBuffer) (y : Int) : List Cell := (columnsFrom 0 s.size.x.toNat).map (s.shownCell y)

theorem length_shownRow (s : ScreenBuffer) (y : Int) : (s.shownRow y).length = s.size.x.toNat := by
  simp [shownRow, columnsFrom]

theorem getElem?_shownRow (s : ScreenBuffer) (y : Int) (c : Nat) :
    (s.shownRow y)[c]? = if c < s.size.x.toNat then some (s.shownCell y c) else none := by
  rw [shownRow, columnsFrom, List.map_map, List.getElem?_map]
  split_ifs with hc
  · rw [List.getElem?_range hc]
    simp
  · rw [List.getElem?_eq_none (by simpa using hc)]
    rfl

theorem Printable.mono {left' right' : Int} (hp : Printable cw s y left right) (hl : left ≤ left') (hr : right' ≤ right) :
    Printable cw s y left' right' :=
  ⟨hp.space, fun x h1 h2 => hp.glyph x (Int.le_trans hl h1) (Int.le_trans h2 hr)⟩

/-- The first column is no second half. -/
theorem cols_zero (h : s.Sized) (hy : 0 ≤ y ∧ y < s.size.y) : (s.cellAt 0 y).cols ≠ 0 := by
  intro h0
  have hw := h.width
  have := ((showsSome_row h hy.2).lead_of_trail (c := 0) (by omega) h0).1
  omega

/-- Of a whole row, no glyph is cut. -/
theorem shownCell_eq (h : s.Sized) (hx : 0 ≤ x ∧ x < s.size.x) (hy : 0 ≤ y ∧ y < s.size.y) :
    s.shownCell y x = ⟨[shownChar (s.cellAt (s.leadColumn y 0 x) y)], (s.cellAt x y).cols,
      ⟨colorsOf (s.cellAt (s.leadColumn y 0 x) y).attr.legacy⟩⟩ := by
  obtain ⟨-, hwide, -⟩ := cols_cases h hx hy.2
  refine if_neg ?_
  by_cases hlead : (s.cellAt x y).cols = 0 ∧ x ≠ 0
  · have hback := (cols_cases h (x := x - 1) ⟨by omega, by omega⟩ hy.2).2.2
    rw [Int.sub_add_cancel] at hback
    have h2 := hback hx.2 hlead.1
    rw [leadColumn, if_pos hlead]
    omega
  · have hne : (s.cellAt x y).cols ≠ 0 := fun h0 => hlead ⟨h0, fun hx0 => cols_zero h hy (hx0 ▸ h0)⟩
    have hcols := (cols_cases h hx hy.2).1
    rw [leadColumn, if_neg hlead]
    omega

/-- Columns from the beginning of a glyph to the end of one are painted as in the whole row. -/
theorem paintedCell_eq_shownCell (h : s.Sized) (hy : 0 ≤ y ∧ y < s.size.y) (hedges : 0 ≤ left ∧ right < s.size.x)
    (hlead : (s.cellAt left y).cols ≠ 0) (hend : right + 1 < s.size.x → (s.cellAt (right + 1) y).cols ≠ 0)
    (hx : left ≤ x ∧ x ≤ right) : s.paintedCell y left right x = s.shownCell y x := by
  have hcolumn : s.leadColumn y left x = s.leadColumn y 0 x := by
    unfold leadColumn
    by_cases h0 : (s.cellAt x y).cols = 0
    · have hleft : x ≠ left := fun heq => hlead (heq ▸ h0)
      have hzero : x ≠ 0 := by omega
      rw [if_pos ⟨h0, hleft⟩, if_pos ⟨h0, hzero⟩]
    · rw [if_neg fun h => h0 h.1, if_neg fun h => h0 h.1]
  have hlow : left ≤ s.leadColumn y left x := by
    unfold leadColumn
    split_ifs <;> omega
  have hhigh : s.leadColumn y left x ≤ x := by
    unfold leadColumn
    split_ifs <;> omega
  have hwide := (cols_cases h (x := s.leadColumn y left x) ⟨by omega, by omega⟩ hy.2)
  rw [shownCell_eq h ⟨by omega, by omega⟩ hy, ← hcolumn]
  refine if_neg ?_
  by_cases hlead' : (s.cellAt x y).cols = 0 ∧ x ≠ left
  · have hback := (cols_cases h (x := x - 1) ⟨by omega, by omega⟩ hy.2).2.2
    rw [Int.sub_add_cancel] at hback
    have h2 := hback (by omega) hlead'.1
    rw [leadColumn, if_pos hlead']
    omega
  · have hne : (s.cellAt x y).cols ≠ 0 := fun h0 => hlead' ⟨h0, fun hx0 => hlead (hx0 ▸ h0)⟩
    have heq : s.leadColumn y left x = x := if_neg hlead'
    rw [heq] at hwide ⊢
    obtain ⟨hcols, hwide, -⟩ := hwide
    rintro (h0 | hcut)
    · exact hne h0
    · have h2 : (s.cellAt x y).cols = 2 ∧ x = right := by omega
      obtain ⟨hlt, hnext⟩ := hwide h2.1
      exact hend (by omega) (h2.2 ▸ hnext)

/-! ## The columns that are written -/

theorem glyphStart_spec (h : s.Sized) (hy : 0 ≤ y ∧ y < s.size.y) : ∀ n : Nat, (n : Int) < s.size.x →
    s.glyphStart y n ≤ n ∧ (s.cellAt (s.glyphStart y n) y).cols ≠ 0
  | 0, _ => ⟨le_rfl, cols_zero h hy⟩
  | n + 1, hn => by
    rw [glyphStart, glyphWidth_eq h ⟨by omega, hn⟩ hy]
    split_ifs with h0
    · obtain ⟨hle, hcols⟩ := glyphStart_spec h hy n (by omega)
      exact ⟨by omega, hcols⟩
    · exact ⟨le_rfl, h0⟩

theorem glyphEnd_spec (h : s.Sized) (hy : 0 ≤ y ∧ y < s.size.y) : ∀ (n : Nat) (right : Int), -1 ≤ right → right < s.size.x →
    s.size.x ≤ right + n → right ≤ s.glyphEnd y right n ∧ s.glyphEnd y right n < s.size.x ∧
      (s.glyphEnd y right n + 1 < s.size.x → (s.cellAt (s.glyphEnd y right n + 1) y).cols ≠ 0)
  | 0, right, _, hr, hn => by omega
  | n + 1, right, hl, hr, hn => by
    rw [glyphEnd]
    split_ifs with hnext
    · obtain ⟨h1, h2, h3⟩ := glyphEnd_spec h hy n (right + 1) (by omega) hnext.1 (by push_cast at hn; omega)
      exact ⟨by omega, h2, h3⟩
    · refine ⟨le_rfl, hr, fun hlt h0 => hnext ⟨hlt, ?_⟩⟩
      rw [glyphWidth_eq h ⟨by omega, hlt⟩ hy, h0]

/-- The columns of the row that `vt_repaint_cells` writes. -/
theorem vtRepaintCells_eq (h : s.Sized) (hy : 0 ≤ y ∧ y < s.size.y) (hle : max left 0 ≤ min right (s.size.x - 1)) :
    ∃ a b : Int, (0 ≤ a ∧ a ≤ left ∨ a = 0) ∧ a ≤ b ∧ (right ≤ b ∨ b = s.size.x - 1) ∧ b < s.size.x ∧ (s.cellAt a y).cols ≠ 0 ∧
      (b + 1 < s.size.x → (s.cellAt (b + 1) y).cols ≠ 0) ∧ ∀ last, s.vtRepaintCells y left right last =
        (vtWriteCup y a ++ ((columnsFrom a (b - a + 1).toNat).foldl (s.vtWriteCellAt y a b) ([], last)).1,
          ((columnsFrom a (b - a + 1).toNat).foldl (s.vtWriteCellAt y a b) ([], last)).2) := by
  obtain ⟨hstart, hlead⟩ := glyphStart_spec h hy (max left 0).toNat (by omega)
  obtain ⟨hend, hend', hnext⟩ := glyphEnd_spec h hy (s.size.x - min right (s.size.x - 1)).toNat (min right (s.size.x - 1))
    (by omega) (by omega) (by omega)
  refine ⟨s.glyphStart y (max left 0).toNat, s.glyphEnd y (min right (s.size.x - 1)) (s.size.x - min right (s.size.x - 1)).toNat,
    by omega, by omega, by omega, hend', hlead, hnext, fun last => ?_⟩
  rw [vtRepaintCells, if_neg (by omega)]
  rfl

/-! ## On the display -/

/-- In every place of the buffer the display has a cell that is allowed there. -/
structure ShowsBy (s : ScreenBuffer) (R : Int → Int → Cell → Prop) (d : Display) : Prop where
  width : (d.width : Int) = s.size.x
  height : (d.lines.length : Int) = s.size.y
  lines : ∀ y, 0 ≤ y → y < s.size.y → ∃ cells, d.lines[y.toNat]? = some cells ∧ cells.length = s.size.x.toNat ∧
    ∀ x, 0 ≤ x → x < s.size.x → ∃ cell, cells[x.toNat]? = some cell ∧ R x y cell

/-- The display shows the buffer. -/
def Mirrors (s : ScreenBuffer) (d : Display) : Prop := s.ShowsBy (fun x y cell => cell = s.shownCell y x) d

variable {R R' R'' : Int → Int → Cell → Prop} {t : Display}

theorem mirrors_iff (h : s.Sized) :
    s.Mirrors t ↔ (t.width : Int) = s.size.x ∧ t.lines = (columnsFrom 0 s.size.y.toNat).map s.shownRow := by
  have hwidth := h.width
  have hheight := h.height
  have hrows (i : Nat) : ((columnsFrom 0 s.size.y.toNat).map s.shownRow)[i]? =
      if i < s.size.y.toNat then some (s.shownRow i) else none := by
    rw [columnsFrom, List.map_map, List.getElem?_map]
    split_ifs with hi
    · simp [List.getElem?_range hi]
    · rw [List.getElem?_eq_none (by simpa using hi)]
      rfl
  constructor
  · refine fun ht => ⟨ht.width, List.ext_getElem? fun i => ?_⟩
    rw [hrows]
    have hlength := ht.height
    split_ifs with hi
    · obtain ⟨line, hline, hlength, hcells⟩ := ht.lines i (by omega) (by omega)
      rw [Int.toNat_natCast] at hline
      rw [hline, Option.some_inj]
      refine List.ext_getElem? fun c => ?_
      rw [getElem?_shownRow]
      split_ifs with hc
      · obtain ⟨cell, hcell, rfl⟩ := hcells c (by omega) (by omega)
        rwa [Int.toNat_natCast] at hcell
      · exact List.getElem?_eq_none (by omega)
    · exact List.getElem?_eq_none (by omega)
  · rintro ⟨hw, hlines⟩
    refine ⟨hw, ?_, fun y h0 hy => ⟨s.shownRow y, ?_, length_shownRow s y, fun x hx0 hx => ⟨s.shownCell y x, ?_, rfl⟩⟩⟩
    · rw [hlines, List.length_map, columnsFrom, List.length_map, List.length_range]
      omega
    · rw [hlines, hrows, if_pos (by omega), Int.toNat_of_nonneg h0]
    · rw [getElem?_shownRow, if_pos (by omega), Int.toNat_of_nonneg hx0]

theorem ShowsBy.mono (ht : s.ShowsBy R t)
    (hR : ∀ x y cell, 0 ≤ x → x < s.size.x → 0 ≤ y → y < s.size.y → R x y cell → R' x y cell) : s.ShowsBy R' t := by
  refine ⟨ht.width, ht.height, fun y h0 hy => ?_⟩
  obtain ⟨line, hline, hlength, hcells⟩ := ht.lines y h0 hy
  refine ⟨line, hline, hlength, fun x hx0 hx => ?_⟩
  obtain ⟨cell, hcell, hr⟩ := hcells x hx0 hx
  exact ⟨cell, hcell, hR x y cell hx0 hx h0 hy hr⟩

theorem length_overwriteCells (cells : List Cell) (col : Nat) (run : List Cell) :
    (overwriteCells cells col run).length = cells.length := by
  unfold overwriteCells
  split_ifs
  · rfl
  · exact List.length_mapIdx

/-- What is left of a cell beside the columns from `a` to `b` that are written. -/
def edgeCut (a b x : Int) (cell : Cell) : Cell :=
  if x + 1 = a ∧ cell.cols = 2 ∨ x = b + 1 ∧ cell.cols = 0 then cell.cut else cell

/-- Columns of the row are written over a line. -/
theorem getElem?_overwriteCells_painted (h : s.Sized) (hy : 0 ≤ y ∧ y < s.size.y) {a b : Int} (hedges : 0 ≤ a ∧ a ≤ b ∧ b < s.size.x)
    (hlead : (s.cellAt a y).cols ≠ 0) (hend : b + 1 < s.size.x → (s.cellAt (b + 1) y).cols ≠ 0) {cells : List Cell} {cell : Cell}
    (hx : 0 ≤ x) (hcell : cells[x.toNat]? = some cell) :
    (overwriteCells cells a.toNat ((columnsFrom a (b - a + 1).toNat).map (s.paintedCell y a b)))[x.toNat]? =
      some (if a ≤ x ∧ x ≤ b then s.shownCell y x else edgeCut a b x cell) := by
  obtain ⟨c, rfl⟩ := Int.eq_ofNat_of_zero_le hx
  have hcount : ((columnsFrom a (b - a + 1).toNat).map (s.paintedCell y a b)).length = (b - a + 1).toNat := by simp [columnsFrom]
  have hrun : (columnsFrom a (b - a + 1).toNat).map (s.paintedCell y a b) ≠ [] := by
    rw [← List.length_pos_iff, hcount]
    omega
  rw [ScreenBufferRow.getElem?_overwriteCells, hcell, Option.map_some, Int.toNat_natCast]
  by_cases hin : a ≤ c ∧ c ≤ b
  · have hpainted := paintedCell_eq_shownCell h hy ⟨hedges.1, hedges.2.2⟩ hlead hend hin
    have hget : ((columnsFrom a (b - a + 1).toNat).map (s.paintedCell y a b))[c - a.toNat]? = some (s.shownCell y c) := by
      rw [columnsFrom, List.map_map, List.getElem?_map, List.getElem?_range (by omega), ← hpainted]
      simp only [Option.map_some, Function.comp_apply]
      congr 2
      omega
    rw [if_pos hin, overwriteCell, if_pos (by omega), List.getD_eq_getElem?_getD, hget, Option.getD_some]
  · rw [if_neg hin, overwriteCell, if_neg (by omega), edgeCut]
    by_cases hleft : (c : Int) + 1 = a ∧ cell.cols = 2
    · rw [if_pos ⟨by omega, hrun, hleft.2⟩, if_pos (.inl hleft)]
    · rw [if_neg fun h => hleft ⟨by omega, h.2.2⟩]
      by_cases hright : (c : Int) = b + 1 ∧ cell.cols = 0
      · rw [if_pos ⟨by omega, hrun, hright.2⟩, if_pos (.inr hright)]
      · rw [if_neg fun h => hright ⟨by omega, h.2.2⟩, if_neg (not_or.mpr ⟨hleft, hright⟩)]

/-- No glyph of the row reaches over an edge of such columns. -/
theorem edgeCut_shownCell (h : s.Sized) (hy : 0 ≤ y ∧ y < s.size.y) {a b : Int} (hlead : (s.cellAt a y).cols ≠ 0)
    (hend : b + 1 < s.size.x → (s.cellAt (b + 1) y).cols ≠ 0) (hx : 0 ≤ x ∧ x < s.size.x) :
    edgeCut a b x (s.shownCell y x) = s.shownCell y x := by
  have hcols : (s.shownCell y x).cols = (s.cellAt x y).cols := by rw [shownCell_eq h hx hy]
  rw [edgeCut, hcols, if_neg]
  rintro (⟨rfl, h2⟩ | ⟨rfl, h0⟩)
  · exact hlead ((cols_cases h hx hy.2).2.1 h2).2
  · exact hend hx.2 h0

/-- No cell has the attribute word. -/
def Unused (s : ScreenBuffer) (attr : UInt16) : Prop :=
  ∀ x y, 0 ≤ x → x < s.size.x → 0 ≤ y → y < s.size.y → (s.cellAt x y).attr.legacy ≠ attr

/-- The text turns a display with cells by `R` into one with cells by `R'`. `last` is the attribute word
that the terminal is taken to have before the text, and `r.2` the one behind it. -/
structure Repaints (cw : Char32 → Int) (s : ScreenBuffer) (R R' : Int → Int → Cell → Prop) (last : UInt16)
    (r : List Char32 × UInt16) : Prop where
  complete : Complete r.1
  shows : ∀ {t : Display}, s.ShowsBy R t → t.pen = colorsOf last ∨ s.Unused last →
    t.SameFrame (t.receive cw r.1) ∧ ((t.receive cw r.1).pen = colorsOf r.2 ∨ s.Unused r.2) ∧ s.ShowsBy R' (t.receive cw r.1)

theorem Repaints.append {r r' : List Char32 × UInt16} (hr : Repaints cw s R R' last r) (hr' : Repaints cw s R' R'' r.2 r') :
    Repaints cw s R R'' last (r.1 ++ r'.1, r'.2) := by
  refine ⟨hr.complete.append hr'.complete, fun ht hpen => ?_⟩
  obtain ⟨hframe, hpen, hshows⟩ := hr.shows ht hpen
  obtain ⟨hframe', hpen', hshows'⟩ := hr'.shows hshows hpen
  dsimp only
  rw [Display.receive_append hr.complete]
  exact ⟨hframe.trans hframe', hpen', hshows'⟩

/-- A part of a row: from `a` to `b` the display shows the buffer, and a glyph of which this was a half is cut. -/
theorem repaints_vtRepaintCells (h : s.Sized) (hp : s.PrintableView cw (ScrollRequest.buffer s)) (left right : Int) (last : UInt16)
    (hother : ∀ x y' cell, y' ≠ y → R x y' cell → R' x y' cell)
    (hrow : ∀ a b, a ≤ max left 0 → min right (s.size.x - 1) ≤ b →
      (b + 1 < s.size.x → (s.cellAt (b + 1) y).cols ≠ 0) →
      (∀ x, 0 ≤ x → x < s.size.x → edgeCut a b x (s.shownCell y x) = s.shownCell y x) →
      ∀ x, 0 ≤ x → x < s.size.x → ∀ cell, R x y cell → R' x y (if a ≤ x ∧ x ≤ b then s.shownCell y x else edgeCut a b x cell))
    (hnone : max left 0 > min right (s.size.x - 1) → ∀ x cell, 0 ≤ x → x < s.size.x → R x y cell → R' x y cell) :
    Repaints cw s R R' last (s.vtRepaintCells y left right last) := by
  by_cases hempty : y < 0 ∨ y ≥ s.size.y ∨ max left 0 > min right (s.size.x - 1)
  · rw [vtRepaintCells, if_pos hempty]
    refine ⟨rfl, fun ht hpen => ⟨.refl _, hpen, ht.mono fun x y' cell hx0 hx hy0 hy hr => ?_⟩⟩
    by_cases heq : y' = y
    · subst heq
      exact hnone (by omega) x cell hx0 hx hr
    · exact hother x y' cell heq hr
  have hy : 0 ≤ y ∧ y < s.size.y := by omega
  obtain ⟨a, b, ha, hab, hb, hb', hlead, hend, hcells⟩ := @vtRepaintCells_eq s y left right h hy (by omega)
  have ha0 : 0 ≤ a := by omega
  have hsizes := And.intro h.width h.height
  have hprint : Printable cw s y 0 (s.size.x - 1) := hp y hy.1 (Int.le_sub_one_of_lt hy.2)
  have hcup := @sends_cup y a (by omega) (by omega)
  have hcolumns (t : Display) (hwidth : (t.width : Int) = s.size.x) (hcol : t.col = a.toNat ∧ t.wrap = false)
      (hpen : t.pen = colorsOf last ∨ s.Unused last) :=
    receive_columns h hy (hprint.mono ha0 (by omega)) ⟨ha0, hb'⟩ (b - a + 1).toNat a t last (by omega) le_rfl
      (fun _ => ⟨.inl rfl, hcol.2, by omega⟩) (hpen.imp_right fun hunused => ⟨by omega, hunused a y ha0 (by omega) hy.1 hy.2⟩)
  rw [hcells]
  generalize (columnsFrom a (b - a + 1).toNat).foldl (s.vtWriteCellAt y a b) ([], last) = r at hcolumns
  refine ⟨(Display.receive_sends cw hcup { lines := [], width := 0, bottom := 0 }).1.append (hcolumns
    { lines := []
      width := s.size.x.toNat
      bottom := 0
      col := a.toNat
      pen := colorsOf last } (by dsimp only; omega) ⟨rfl, rfl⟩ (.inl rfl)).1, fun {t} ht hpen => ?_⟩
  have hwidth := ht.width
  have hheight := ht.height
  obtain ⟨line, hline, hlength, hshown⟩ := ht.lines y hy.1 hy.2
  obtain ⟨hcomplete, hcursor⟩ := Display.receive_sends cw hcup t
  rw [Display.execute_position, show min (y + 1 - 1).toNat (t.lines.length - 1) = y.toNat by omega,
    show min (a + 1 - 1).toNat (t.width - 1) = a.toNat by omega] at hcursor
  obtain ⟨-, -, col, wrap, hreceive⟩ := hcolumns { t with
      row := y.toNat
      col := a.toNat
      wrap := false } hwidth ⟨rfl, rfl⟩ hpen
  dsimp only
  rw [Display.receive_append hcomplete, hcursor, hreceive]
  refine ⟨⟨rfl, List.length_modify .., rfl, rfl, rfl⟩, .inl rfl, hwidth, ?_, fun y' h0 hy' => ?_⟩
  · exact (congrArg Int.ofNat (List.length_modify ..)).trans hheight
  · by_cases heq : y' = y
    · subst heq
      refine ⟨overwriteCells line a.toNat ((columnsFrom a (b - a + 1).toNat).map (s.paintedCell y' a b)),
        (List.getElem?_modify_eq ..).trans (congrArg _ hline), by rw [length_overwriteCells, hlength], fun x hx0 hx => ?_⟩
      obtain ⟨cell, hcell, hr⟩ := hshown x hx0 hx
      exact ⟨_, getElem?_overwriteCells_painted h hy ⟨ha0, hab, hb'⟩ hlead hend hx0 hcell,
        hrow a b (by omega) (by omega) hend (fun x hx0 hx => edgeCut_shownCell h hy hlead hend ⟨hx0, hx⟩) x hx0 hx cell hr⟩
    · obtain ⟨line', hline', hlength', hshown'⟩ := ht.lines y' h0 hy'
      refine ⟨line', (List.getElem?_modify_ne _ _ (show y.toNat ≠ y'.toNat by omega)).trans hline', hlength', fun x hx0 hx => ?_⟩
      obtain ⟨cell, hcell, hr⟩ := hshown' x hx0 hx
      exact ⟨cell, hcell, hother x y' cell heq hr⟩

/-! ## Rows -/

/-- A turn of the loop of `api_write_console_output` over the rows. -/
def repaintRow (s : ScreenBuffer) (left right : Int) (out : List Char32 × UInt16) (y : Int) : List Char32 × UInt16 :=
  let (cells, lastAttr) := s.vtRepaintCells y left right out.2
  (out.1 ++ cells, lastAttr)

theorem foldl_repaintRow (s : ScreenBuffer) (left right : Int) (ys : List Int) (out : List Char32) (last : UInt16) :
    ys.foldl (s.repaintRow left right) (out, last) =
      (out ++ (ys.foldl (s.repaintRow left right) ([], last)).1, (ys.foldl (s.repaintRow left right) ([], last)).2) := by
  refine Transducer.foldl_output (fun out last y => ?_) ys out last
  simp [repaintRow]

/-- What the display may have while the rows `ys` are still to be repainted: the buffer is shown, or the place
is written, or it has a half of a glyph that is cut. -/
def Unpainted (s : ScreenBuffer) (left right : Int) (ys : List Int) (x y : Int) (cell : Cell) : Prop :=
  cell = s.shownCell y x ∨ y ∈ ys ∧ (left ≤ x ∧ x ≤ right ∨ x = right + 1 ∧ (s.cellAt x y).cols = 0 ∨
    (x + 1 = left ∧ cell.cols = 2 ∨ x = right + 1 ∧ cell.cols = 0) ∧ cell.cut = s.shownCell y x)

theorem repaints_row (h : s.Sized) (hp : s.PrintableView cw (ScrollRequest.buffer s))
    (hle : max left 0 ≤ min right (s.size.x - 1)) (y : Int) (ys : List Int) (last : UInt16) :
    Repaints cw s (s.Unpainted left right (y :: ys)) (s.Unpainted left right ys) last (s.vtRepaintCells y left right last) := by
  refine repaints_vtRepaintCells h hp left right last (fun x y' cell hne hr => ?_) (fun a b ha hb hend hedge x hx0 hx cell hr => ?_)
    fun hgt => absurd hle (Int.not_le.mpr hgt)
  · exact hr.imp_right fun hr => ⟨(List.mem_cons.mp hr.1).resolve_left hne, hr.2⟩
  · left
    by_cases hin : a ≤ x ∧ x ≤ b
    · rw [if_pos hin]
    · rw [if_neg hin]
      rcases hr with rfl | ⟨-, harea | ⟨hx', h0⟩ | ⟨hhalf, hcut⟩⟩
      · exact hedge x hx0 hx
      · omega
      · exact absurd h0 ((show b + 1 = x by omega) ▸ hend (by omega))
      · rw [edgeCut, if_pos (by omega), hcut]

theorem repaints_rows (h : s.Sized) (hp : s.PrintableView cw (ScrollRequest.buffer s))
    (hle : max left 0 ≤ min right (s.size.x - 1)) : ∀ (ys : List Int) (last : UInt16),
    Repaints cw s (s.Unpainted left right ys) (s.Unpainted left right []) last (ys.foldl (s.repaintRow left right) ([], last))
  | [], last => ⟨rfl, fun ht hpen => ⟨.refl _, hpen, ht⟩⟩
  | y :: ys, last => by
    rw [List.foldl_cons, show s.repaintRow left right ([], last) y = s.vtRepaintCells y left right last from rfl,
      ← Prod.mk.eta (p := s.vtRepaintCells y left right last), foldl_repaintRow]
    exact (repaints_row h hp hle y ys last).append (repaints_rows h hp hle ys _)

end ScreenBuffer

end Corehost
