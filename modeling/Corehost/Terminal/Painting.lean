import Mathlib.Data.Int.Range
import Corehost.Row.Copy
import Corehost.Session.CursorQueries
import Corehost.Terminal.Display

/-!
# Painting the screen

What a display shows behind the cells that the console writes to it
(`vt_write_cells`, `pipe_bridge.hpp`) and behind a whole screen
(`render_visible_viewport`, `viewport_render.hpp`).
-/

namespace Corehost

open Lib
open ScreenBufferRow (Cell runCells overwriteCells Closed)

/-! ## Cells -/

namespace ScreenBuffer

/-- The character of a cell, with a space for NUL. -/
def shownChar (cell : Cell) : Char32 := if cell.glyph.headD 0x20 = 0 then 0x20 else cell.glyph.headD 0x20

/-- The column in which the glyph of a column begins, `left` at the earliest. -/
def leadColumn (s : ScreenBuffer) (y left x : Int) : Int := if (s.cellAt x y).cols = 0 ∧ x ≠ left then x - 1 else x

/-- What a display is to show of a column, when the columns `left, …, right` are
written: half a glyph at an edge is a space, and a glyph has the colors of its
first column. -/
def paintedCell (s : ScreenBuffer) (y left right x : Int) : Cell :=
  let lead := s.leadColumn y left x
  let cell := s.cellAt lead y
  if cell.cols = 0 ∨ lead + cell.cols - 1 > right then ⟨[0x20], 1, ⟨colorsOf cell.attr.legacy⟩⟩
  else ⟨[shownChar cell], (s.cellAt x y).cols, ⟨colorsOf cell.attr.legacy⟩⟩

/-- The columns from `x` on, `n` of them. -/
def columnsFrom (x : Int) (n : Nat) : List Int := (List.range n).map fun (k : Nat) => x + k

/-- The display measures the glyphs as the buffer does, and none is a control character. -/
structure Printable (cw : Char32 → Int) (s : ScreenBuffer) (y left right : Int) : Prop where
  space : widthColumns cw 0x20 = 1
  glyph : ∀ x, left ≤ x → x ≤ right → (s.cellAt x y).cols ≠ 0 →
    isC0OrDel (shownChar (s.cellAt x y)) = false ∧ widthColumns cw (shownChar (s.cellAt x y)) = (s.cellAt x y).cols

variable {cw : Char32 → Int} {s : ScreenBuffer} {x y left right : Int} {last : UInt16}

instance : Decidable (Printable cw s y left right) :=
  decidable_of_iff _ (⟨fun h => ⟨h.1, h.2⟩, fun h => ⟨h.1, h.2⟩⟩ : _ ∧ _ ↔ _)

theorem columnsFrom_succ (x : Int) (n : Nat) : columnsFrom x (n + 1) = x :: columnsFrom (x + 1) n := by
  rw [columnsFrom, List.range_succ_eq_map, List.map_cons, List.map_map, columnsFrom]
  simp only [Nat.cast_zero, add_zero, List.cons.injEq, true_and]
  refine List.map_congr_left fun k _ => ?_
  simp only [Function.comp_apply, Nat.cast_succ]
  omega

theorem columnsFrom_add (x : Int) (m n : Nat) : columnsFrom x (m + n) = columnsFrom x m ++ columnsFrom (x + m) n := by
  rw [columnsFrom, List.range_add, List.map_append, List.map_map, columnsFrom, columnsFrom]
  congr 1
  refine List.map_congr_left fun k _ => ?_
  simp only [Function.comp_apply, Nat.cast_add]
  omega

theorem valid_of (hx : 0 ≤ x ∧ x < s.size.x) (hy : 0 ≤ y ∧ y < s.size.y) : s.valid ⟨x, y⟩ = true := by
  simp [valid, hx, hy]

theorem glyphWidth_eq (h : s.Sized) (hx : 0 ≤ x ∧ x < s.size.x) (hy : 0 ≤ y ∧ y < s.size.y) :
    s.glyphWidth ⟨x, y⟩ = (s.cellAt x y).cols := by
  have := h.width.2
  rw [glyphWidth, if_pos (valid_of hx hy), u16_of_lt (by dsimp only; omega)]
  rfl

theorem attrAt_eq (h : s.Sized) (hx : 0 ≤ x ∧ x < s.size.x) (hy : 0 ≤ y ∧ y < s.size.y) :
    s.attrAt ⟨x, y⟩ = (s.cellAt x y).attr.legacy := by
  have := h.width.2
  rw [attrAt, if_pos (valid_of hx hy), u16_of_lt (by dsimp only; omega)]
  rfl

theorem atU32_eq (h : s.Sized) (hx : 0 ≤ x ∧ x < s.size.x) (hy : 0 ≤ y ∧ y < s.size.y) :
    s.atU32 ⟨x, y⟩ = (s.cellAt x y).glyph.headD 0x20 := by
  have := h.width.2
  rw [atU32, if_pos (valid_of hx hy), glyphAt, if_pos (valid_of hx hy), u16_of_lt (by dsimp only; omega)]
  rfl

/-! ## One turn -/

/-- The output so far stays in front. -/
theorem foldl_vtWriteCellAt (s : ScreenBuffer) (y left right : Int) (xs : List Int) (out : List Char32) (last : UInt16) :
    xs.foldl (s.vtWriteCellAt y left right) (out, last) =
      (out ++ (xs.foldl (s.vtWriteCellAt y left right) ([], last)).1,
        (xs.foldl (s.vtWriteCellAt y left right) ([], last)).2) := by
  refine Transducer.foldl_output (fun out last x => ?_) xs out last
  unfold vtWriteCellAt
  dsimp only
  split_ifs <;> simp [List.append_assoc]

/-- The character that is written for the glyph that begins in a column. -/
def writtenChar (s : ScreenBuffer) (y right x : Int) : Char32 :=
  if (s.cellAt x y).cols = 0 ∨ x + (s.cellAt x y).cols - 1 > right then 0x20 else shownChar (s.cellAt x y)

theorem vtWriteCellAt_lead (h : s.Sized) (hx : 0 ≤ x ∧ x < s.size.x) (hy : 0 ≤ y ∧ y < s.size.y)
    (hlead : x = left ∨ (s.cellAt x y).cols ≠ 0) :
    s.vtWriteCellAt y left right ([], last) x =
      ((if (s.cellAt x y).attr.legacy ≠ last then vtWriteAttr (s.cellAt x y).attr.legacy else []) ++
        [s.writtenChar y right x], (s.cellAt x y).attr.legacy) := by
  unfold vtWriteCellAt
  dsimp only
  rw [glyphWidth_eq h hx hy, attrAt_eq h hx hy, atU32_eq h hx hy, if_neg (by omega)]
  have hchar : vtWriteCell (if ((s.cellAt x y).cols : Int) = 0 ∨ x + (s.cellAt x y).cols - 1 > right then 0x20
      else (s.cellAt x y).glyph.headD 0x20) = [s.writtenChar y right x] := by
    simp only [writtenChar, Int.natCast_eq_zero]
    split_ifs
    · rfl
    · rfl
  rw [hchar]
  split_ifs with hattr
  · rfl
  · rw [not_not.mp hattr]

theorem vtWriteCellAt_trail (h : s.Sized) (hx : 0 ≤ x ∧ x < s.size.x) (hy : 0 ≤ y ∧ y < s.size.y) (hne : x ≠ left)
    (htrail : (s.cellAt x y).cols = 0) (out : List Char32 × UInt16) : s.vtWriteCellAt y left right out x = out := by
  unfold vtWriteCellAt
  dsimp only
  rw [glyphWidth_eq h hx hy, if_pos ⟨by rw [htrail]; rfl, hne⟩]

end ScreenBuffer

/-! ## On the display -/

namespace Display

variable {cw : Char32 → Int} {t : Display} {run rest : List Cell}

theorem put_nil (t : Display) : t.put [] = t := by
  have hline : (fun line : List Cell => overwriteCells line t.col []) = id := by
    funext line
    rw [overwriteCells, if_pos rfl]
    rfl
  rw [put, hline, List.modify_id]

/-- Cells, and others behind them. -/
theorem put_put (hclosed : Closed run) (hne : run ≠ []) {col : Nat} (hcol : col = t.col + run.length ∨ rest = []) (wrap : Bool) :
    ({ t.put run with col := col, wrap := wrap } : Display).put rest =
      { t.put (run ++ rest) with col := col, wrap := wrap } := by
  rcases hcol with rfl | rfl
  · have hline : (fun line => overwriteCells line (t.col + run.length) rest) ∘ (fun line => overwriteCells line t.col run) =
        fun line => overwriteCells line t.col (run ++ rest) := by
      funext line
      exact ScreenBufferRow.overwriteCells_append hclosed hne
    simp only [put, List.modify_modify_eq, hline]
  · rw [put_nil, List.append_nil]

/-- A character that fits into the line. -/
theorem print_eq {ch : Char32} {n : Nat} (hn : widthColumns cw ch = n) (hwrap : t.wrap = false) (hfit : t.col + n ≤ t.width) :
    t.print cw ch = { t.put (runCells ⟨t.pen⟩ [(ch, n)]) with
      col := min (t.col + n) (t.width - 1)
      wrap := decide (t.width ≤ t.col + n) } := by
  have hwidth : (widthColumns cw ch).toNat = n := by rw [hn]; rfl
  rw [print]
  dsimp only
  rw [hwidth, if_neg (by rw [hwrap]; simp; omega)]

end Display

namespace ScreenBuffer

open Display (Complete)

variable {cw : Char32 → Int} {s : ScreenBuffer} {x y left right : Int} {last : UInt16} {t : Display}

/-- The columns of a row, from one on. -/
theorem cols_cases (h : s.Sized) (hx : 0 ≤ x ∧ x < s.size.x) (hy : y < s.size.y) :
    ((s.cellAt x y).cols = 0 ∨ (s.cellAt x y).cols = 1 ∨ (s.cellAt x y).cols = 2) ∧
      ((s.cellAt x y).cols = 2 → x + 1 < s.size.x ∧ (s.cellAt (x + 1) y).cols = 0) ∧
      (x + 1 < s.size.x → (s.cellAt (x + 1) y).cols = 0 → (s.cellAt x y).cols = 2) := by
  have hrow := showsSome_row h hy
  have hlt : x.toNat < s.size.x.toNat := by omega
  have hnext : (x + 1).toNat = x.toNat + 1 := by omega
  refine ⟨(hrow.cols_cases hlt).2, fun h2 => ?_, fun hx' h0 => ?_⟩
  · obtain ⟨h3, h4, -⟩ := hrow.trail_of_lead hlt h2
    rw [cellAt, hnext]
    exact ⟨by omega, h4⟩
  · rw [cellAt, hnext] at h0
    exact (hrow.lead_of_trail (by omega) h0).2.1

theorem leadColumn_self (hlead : x = left ∨ (s.cellAt x y).cols ≠ 0) : s.leadColumn y left x = x := by
  rw [leadColumn, if_neg (by omega)]

/-- What a turn of the loop writes, and the columns that it is about: one, or the
two columns of a wide glyph. -/
theorem exists_turn (h : s.Sized) (hy : 0 ≤ y ∧ y < s.size.y) (hp : Printable cw s y left right)
    (hedges : 0 ≤ left ∧ right < s.size.x) {n : Nat} (hn : 0 < n) (hx : x + n = right + 1) (hleft : left ≤ x)
    (hlead : x = left ∨ (s.cellAt x y).cols ≠ 0) :
    ∃ k, (k = 1 ∨ k = 2) ∧ k ≤ n ∧ isC0OrDel (s.writtenChar y right x) = false ∧
      widthColumns cw (s.writtenChar y right x) = k ∧
      runCells ⟨colorsOf (s.cellAt x y).attr.legacy⟩ [(s.writtenChar y right x, k)] =
        (columnsFrom x k).map (s.paintedCell y left right) ∧
      (∀ last, (columnsFrom x k).foldl (s.vtWriteCellAt y left right) ([], last) =
        ((if (s.cellAt x y).attr.legacy ≠ last then vtWriteAttr (s.cellAt x y).attr.legacy else []) ++
          [s.writtenChar y right x], (s.cellAt x y).attr.legacy)) ∧
      (k < n → (s.cellAt (x + k) y).cols ≠ 0) ∧ s.leadColumn y left (x + k - 1) = x := by
  have hin : 0 ≤ x ∧ x < s.size.x := ⟨by omega, by omega⟩
  obtain ⟨hcols, hwide, hback⟩ := cols_cases h hin hy.2
  have hfold (last : UInt16) := @vtWriteCellAt_lead s x y left right last h hin hy hlead
  have hself := leadColumn_self hlead
  have hone : columnsFrom x 1 = [x] := by rw [columnsFrom_succ]; rfl
  by_cases hcut : (s.cellAt x y).cols = 0 ∨ x + (s.cellAt x y).cols - 1 > right
  · -- half a glyph
    have hchar : s.writtenChar y right x = 0x20 := if_pos hcut
    refine ⟨1, .inl rfl, hn, by rw [hchar]; decide, by rw [hchar, hp.space]; rfl, ?_, fun last => ?_, fun hlt => ?_, ?_⟩
    · rw [hone, List.map_singleton, paintedCell, hself, if_pos hcut, hchar]
      rfl
    · rw [hone, List.foldl_cons, List.foldl_nil, hfold]
    · have := hback (by omega)
      push_cast
      omega
    · rw [Nat.cast_one, add_sub_cancel_right, hself]
  · obtain ⟨hne, hfit⟩ := not_or.mp hcut
    have hchar : s.writtenChar y right x = shownChar (s.cellAt x y) := if_neg hcut
    obtain ⟨hprint, hwidth⟩ := hp.glyph x hleft (by omega) hne
    rcases hcols with h0 | h1 | h2
    · exact absurd h0 hne
    · refine ⟨1, .inl rfl, hn, by rw [hchar, hprint], by rw [hchar, hwidth, h1], ?_, fun last => ?_, fun hlt => ?_, ?_⟩
      · rw [hone, List.map_singleton, paintedCell, hself, if_neg hcut, hchar, h1]
        rfl
      · rw [hone, List.foldl_cons, List.foldl_nil, hfold]
      · have := hback (by omega)
        push_cast
        omega
      · rw [Nat.cast_one, add_sub_cancel_right, hself]
    · obtain ⟨hx', h0⟩ := hwide h2
      have hne' : x + 1 ≠ left := by omega
      have htwo : columnsFrom x 2 = [x, x + 1] := by rw [columnsFrom_succ, columnsFrom_succ]; rfl
      have hlead' : s.leadColumn y left (x + 1) = x := by
        rw [leadColumn, if_pos ⟨h0, hne'⟩]
        omega
      refine ⟨2, .inr rfl, by omega, by rw [hchar, hprint], by rw [hchar, hwidth, h2], ?_, fun last => ?_, fun hlt => ?_, ?_⟩
      · rw [htwo, List.map_cons, List.map_singleton, paintedCell, paintedCell, hself, hlead', if_neg hcut, hchar, h2, h0]
        rw [h2] at hcut
        rw [if_neg hcut]
        rfl
      · rw [htwo, List.foldl_cons, List.foldl_cons, List.foldl_nil, hfold,
          vtWriteCellAt_trail h ⟨by omega, hx'⟩ hy hne' h0]
      · have hnext := (cols_cases h (x := x + 1) ⟨by omega, hx'⟩ hy.2).2.2 (by omega)
        rw [show x + 1 + 1 = x + (2 : Nat) by push_cast; omega] at hnext
        omega
      · rw [show x + (2 : Nat) - 1 = x + 1 by push_cast; omega, hlead']

variable (cw) in
/-- The pen of a glyph, unless the display has it already. -/
theorem receive_pen {attr : UInt16} (hpen : t.pen = colorsOf last ∨ attr ≠ last) :
    Complete (if attr ≠ last then vtWriteAttr attr else []) ∧
      t.receive cw (if attr ≠ last then vtWriteAttr attr else []) = { t with pen := colorsOf attr } := by
  by_cases hattr : attr = last
  · obtain hpen : t.pen = colorsOf attr := hpen.elim (hattr ▸ ·) (absurd hattr)
    rw [if_neg (not_not_intro hattr), ← hpen]
    exact ⟨rfl, rfl⟩
  · rw [if_pos hattr]
    exact Display.receive_attr cw attr t

/-- The columns from `x` to `right`, on a display with its cursor in the column
for `x`. The pen is the one of the last glyph. -/
theorem receive_columns (h : s.Sized) (hy : 0 ≤ y ∧ y < s.size.y) (hp : Printable cw s y left right)
    (hedges : 0 ≤ left ∧ right < s.size.x) (n : Nat) : ∀ (x : Int) (t : Display) (last : UInt16), x + n = right + 1 → left ≤ x →
      (n ≠ 0 → (x = left ∨ (s.cellAt x y).cols ≠ 0) ∧ t.wrap = false ∧ t.col + n ≤ t.width) →
      (t.pen = colorsOf last ∨ n ≠ 0 ∧ (s.cellAt x y).attr.legacy ≠ last) →
      let r := (columnsFrom x n).foldl (s.vtWriteCellAt y left right) ([], last)
      Complete r.1 ∧ (n ≠ 0 → r.2 = (s.cellAt (s.leadColumn y left right) y).attr.legacy) ∧ ∃ col wrap,
        t.receive cw r.1 = { t.put ((columnsFrom x n).map (s.paintedCell y left right)) with
          col := col
          wrap := wrap
          pen := colorsOf r.2 } := by
  induction n using Nat.strong_induction_on with
  | _ n ih =>
    intro x t last hx hleft hstart hpen r
    rcases Nat.eq_zero_or_pos n with rfl | hn
    · have hpen : t.pen = colorsOf last := hpen.elim id fun h => absurd rfl h.1
      refine ⟨rfl, fun h => absurd rfl h, t.col, t.wrap, ?_⟩
      change t = { t.put [] with col := t.col, wrap := t.wrap, pen := colorsOf last }
      rw [Display.put_nil, ← hpen]
    · obtain ⟨hlead, hwrap, hfit⟩ := hstart (by omega)
      obtain ⟨k, hk, hkn, hprint, hwidth, hcells, hfold, hnext, hlast⟩ := exists_turn h hy hp hedges hn hx hleft hlead
      have hpen : t.pen = colorsOf last ∨ (s.cellAt x y).attr.legacy ≠ last := hpen.imp_right And.right
      generalize hattr : (s.cellAt x y).attr.legacy = attr at hcells hfold hpen
      generalize s.writtenChar y right x = ch at hprint hwidth hcells hfold
      obtain ⟨hcomplete, hcolors⟩ := receive_pen cw hpen
      -- the display behind the glyph
      obtain ⟨hcomplete', htext⟩ := Display.receive_text cw (s := [ch]) (by simpa using hprint)
        { t with pen := colorsOf attr }
      rw [List.foldl_cons, List.foldl_nil,
        Display.print_eq (t := { t with pen := colorsOf attr }) hwidth hwrap (by dsimp only; omega)] at htext
      dsimp only at htext
      rw [hcells] at htext
      have hlength : ((columnsFrom x k).map (s.paintedCell y left right)).length = k := by simp [columnsFrom]
      have hclosed : Closed ((columnsFrom x k).map (s.paintedCell y left right)) := by
        rw [← hcells]
        rcases hk with rfl | rfl <;> simp [Closed, runCells]
      have hrun : (columnsFrom x k).map (s.paintedCell y left right) ≠ [] := by
        rw [← List.length_pos_iff, hlength]
        omega
      obtain ⟨hrest, hpen', col, wrap, hreceive⟩ := ih (n - k) (by omega) (x + k)
        { Display.put { t with pen := colorsOf attr } ((columnsFrom x k).map (s.paintedCell y left right)) with
          col := min (t.col + k) (t.width - 1)
          wrap := decide (t.width ≤ t.col + k) } attr
        (by omega) (by omega)
        (fun hne => ⟨.inr (hnext (by omega)), decide_eq_false (by omega), by dsimp only [Display.put]; omega⟩) (.inl rfl)
      have hcolumns : columnsFrom x n = columnsFrom x k ++ columnsFrom (x + k) (n - k) := by
        rw [← columnsFrom_add, Nat.add_sub_cancel' hkn]
      have hr : r = (((if attr ≠ last then vtWriteAttr attr else []) ++ [ch]) ++
          ((columnsFrom (x + k) (n - k)).foldl (s.vtWriteCellAt y left right) ([], attr)).1,
          ((columnsFrom (x + k) (n - k)).foldl (s.vtWriteCellAt y left right) ([], attr)).2) := by
        change (columnsFrom x n).foldl _ _ = _
        rw [hcolumns, List.foldl_append, hfold, foldl_vtWriteCellAt]
      clear_value r
      subst hr
      refine ⟨(hcomplete.append hcomplete').append hrest, fun _ => ?_, col, wrap, ?_⟩
      · rcases Nat.eq_zero_or_pos (n - k) with h0 | hpos
        · rw [h0, show right = x + k - 1 by omega, hlast, hattr]
          rfl
        · exact hpen' (by omega)
      · rw [Display.receive_append (hcomplete.append hcomplete'), Display.receive_append hcomplete, hcolors, htext,
          hreceive, Display.put_put hclosed hrun, hcolumns, List.map_append]
        · rfl
        · rcases Nat.eq_zero_or_pos (n - k) with h0 | hpos
          · exact .inr (by rw [h0]; rfl)
          · exact .inl (by dsimp only; rw [hlength]; omega)

/-! ## The whole screen -/

/-- What the display is to show of a row. -/
def paintedRow (s : ScreenBuffer) (view : SmallRect) (y : Int) : List Cell :=
  (columnsFrom view.left (view.right - view.left + 1).toNat).map (s.paintedCell y view.left view.right)

theorem overwriteCells_blank {b : Cell} (hb : b.cols = 1) {m : Nat} {run : List Cell} (hrun : run.length ≤ m) :
    overwriteCells (List.replicate m b) 0 run = run ++ List.replicate (m - run.length) b := by
  refine List.ext_getElem? fun c => ?_
  rw [ScreenBufferRow.getElem?_overwriteCells, List.getElem?_replicate]
  rcases Nat.lt_or_ge c run.length with hc | hc
  · rw [List.getElem?_append_left hc, if_pos (by omega), Option.map_some, ScreenBufferRow.overwriteCell,
      if_pos (by omega), Nat.sub_zero, List.getD_eq_getElem?_getD, List.getElem?_eq_getElem hc]
    rfl
  · rw [List.getElem?_append_right hc, List.getElem?_replicate]
    by_cases hm : c < m
    · rw [if_pos hm, if_pos (by omega), Option.map_some, ScreenBufferRow.overwriteCell, if_neg (by omega),
        if_neg (by omega), if_neg (by rw [hb]; simp)]
    · rw [if_neg hm, if_neg (by omega)]
      rfl

/-- A turn of the loop of `render_visible_viewport` over the rows. -/
def renderRow (s : ScreenBuffer) (view : SmallRect) (out : List Char32 × UInt16) (y : Int) : List Char32 × UInt16 :=
  let (row, lastAttr) := s.vtWriteCells y view.left view.right out.2
  (out.1 ++ vtWriteCup (i16 (y - view.top)) 0 ++ row, lastAttr)

theorem foldl_renderRow (s : ScreenBuffer) (view : SmallRect) (ys : List Int) (out : List Char32) (last : UInt16) :
    ys.foldl (s.renderRow view) (out, last) =
      (out ++ (ys.foldl (s.renderRow view) ([], last)).1, (ys.foldl (s.renderRow view) ([], last)).2) := by
  refine Transducer.foldl_output (fun out last y => ?_) ys out last
  simp [renderRow, List.append_assoc]

variable {view : SmallRect} {b : Cell}

/-- A row of the screen, on a line of blanks. -/
theorem receive_row (h : s.Sized) (hy : 0 ≤ y ∧ y < s.size.y) (hp : Printable cw s y view.left view.right)
    (hedges : 0 ≤ view.left ∧ view.left ≤ view.right ∧ view.right < s.size.x) (htop : 0 ≤ view.top ∧ view.top ≤ y) 
    (hb : b.cols = 1) (hwidth : (view.right - view.left + 1).toNat ≤ t.width)
    {done rest : List (List Cell)} (hlines : t.lines = done ++ List.replicate t.width b :: rest)
    (hdone : (done.length : Int) = y - view.top)
    (hpen : t.pen = colorsOf last ∨ (s.cellAt view.left y).attr.legacy ≠ last) :
    let r := s.renderRow view ([], last) y
    Complete r.1 ∧ r.2 = (s.cellAt (s.leadColumn y view.left view.right) y).attr.legacy ∧ ∃ col wrap,
      t.receive cw r.1 = { t with
        lines := done ++
          (s.paintedRow view y ++ List.replicate (t.width - (view.right - view.left + 1).toNat) b) :: rest
        row := done.length
        col := col
        wrap := wrap
        pen := colorsOf r.2 } := by
  intro r
  have hn : (view.right - view.left + 1).toNat ≠ 0 := by omega
  have hheight := h.height.2
  have hcup : PartialScroll.Sends (vtWriteCup (i16 (y - view.top)) 0) (.cursorPosition, .position (y - view.top + 1) 1) := by
    rw [i16_of_range (by omega) (by omega)]
    exact sends_cup (by omega) (by decide)
  obtain ⟨hcomplete, hcursor⟩ := Display.receive_sends cw hcup t
  have hcursor : t.receive cw (vtWriteCup (i16 (y - view.top)) 0) = { t with
      row := done.length
      col := 0
      wrap := false } := by
    have hlt : done.length < t.lines.length := by rw [hlines]; simp
    rw [hcursor, Display.execute_position, show min (y - view.top + 1 - 1).toNat (t.lines.length - 1) = done.length by omega]
    simp
  obtain ⟨hcells, hlast, col, wrap, hreceive⟩ := receive_columns h hy hp ⟨hedges.1, hedges.2.2⟩ _ view.left { t with
      row := done.length
      col := 0
      wrap := false } last (by omega) le_rfl (fun _ => ⟨.inl rfl, rfl, by dsimp only; omega⟩)
    (hpen.imp_right fun h => ⟨hn, h⟩)
  have hr : r = (vtWriteCup (i16 (y - view.top)) 0 ++ ((columnsFrom view.left (view.right - view.left + 1).toNat).foldl
      (s.vtWriteCellAt y view.left view.right) ([], last)).1, ((columnsFrom view.left (view.right - view.left + 1).toNat).foldl
      (s.vtWriteCellAt y view.left view.right) ([], last)).2) := rfl
  rw [hr]
  refine ⟨hcomplete.append hcells, hlast hn, col, wrap, ?_⟩
  rw [Display.receive_append hcomplete, hcursor, hreceive]
  have hline : (t.lines.modify done.length fun line => overwriteCells line 0 (s.paintedRow view y)) = done ++
      (s.paintedRow view y ++ List.replicate (t.width - (view.right - view.left + 1).toNat) b) :: rest := by
    have hlength : (s.paintedRow view y).length = (view.right - view.left + 1).toNat := by simp [paintedRow, columnsFrom]
    have hlt : done.length < t.lines.length := by rw [hlines]; simp
    have hget : t.lines[done.length] = List.replicate t.width b := by simp [hlines]
    rw [List.modify_eq_take_cons_drop hlt, hget, overwriteCells_blank hb (by omega), hlength, hlines]
    simp
  rw [← hline]
  rfl

/-- The display measures the glyphs of the viewport as the buffer does. -/
def PrintableView (cw : Char32 → Int) (s : ScreenBuffer) (view : SmallRect) : Prop :=
  ∀ y, view.top ≤ y → y ≤ view.bottom → Printable cw s y view.left view.right

instance (view : SmallRect) : Decidable (PrintableView cw s view) :=
  inferInstanceAs (Decidable (∀ y, view.top ≤ y → y ≤ view.bottom → Printable cw s y view.left view.right))

/-- The rows from `y` on, on lines of blanks. -/
theorem receive_rows (h : s.Sized) (hp : PrintableView cw s view)
    (hedges : 0 ≤ view.left ∧ view.left ≤ view.right ∧ view.right < s.size.x)
    (hrows : 0 ≤ view.top ∧ view.bottom < s.size.y) (hb : b.cols = 1) (m : Nat) :
    ∀ (n : Nat) (y : Int) (t : Display) (last : UInt16) (done : List (List Cell)), y + n = view.bottom + 1 → view.top ≤ y →
      (view.right - view.left + 1).toNat ≤ t.width →
      t.lines = done ++ List.replicate (n + m) (List.replicate t.width b) → (done.length : Int) = y - view.top →
      (t.pen = colorsOf last ∨ n ≠ 0 ∧ (s.cellAt view.left y).attr.legacy ≠ last) →
      let r := (columnsFrom y n).foldl (s.renderRow view) ([], last)
      Complete r.1 ∧ (n ≠ 0 → r.2 = (s.cellAt (s.leadColumn view.bottom view.left view.right) view.bottom).attr.legacy) ∧
      ∃ row col wrap, t.receive cw r.1 = { t with
        lines := done ++ ((columnsFrom y n).map fun y => s.paintedRow view y ++
          List.replicate (t.width - (view.right - view.left + 1).toNat) b) ++ List.replicate m (List.replicate t.width b)
        row := row
        col := col
        wrap := wrap
        pen := colorsOf r.2 } := by
  intro n
  induction n with
  | zero =>
    intro y t last done hy htop hwidth hlines hdone hpen r
    have hpen : t.pen = colorsOf last := hpen.elim id fun h => absurd rfl h.1
    rw [Nat.zero_add] at hlines
    refine ⟨rfl, fun h => absurd rfl h, t.row, t.col, t.wrap, ?_⟩
    change t = { t with lines := done ++ [] ++ _, row := t.row, col := t.col, wrap := t.wrap, pen := colorsOf last }
    rw [List.append_nil, ← hlines, ← hpen]
  | succ n ih =>
    intro y t last done hy htop hwidth hlines hdone hpen r
    have hin : 0 ≤ y ∧ y < s.size.y := ⟨by omega, by omega⟩
    rw [show n + 1 + m = n + m + 1 by omega, List.replicate_succ] at hlines
    obtain ⟨hcomplete, hlast, col, wrap, hrow⟩ := receive_row h hin (hp y htop (by omega)) hedges ⟨hrows.1, htop⟩ hb hwidth hlines
      hdone (hpen.imp_right And.right)
    have hr : r = ((s.renderRow view ([], last) y).1 ++
        ((columnsFrom (y + 1) n).foldl (s.renderRow view) ([], (s.renderRow view ([], last) y).2)).1,
        ((columnsFrom (y + 1) n).foldl (s.renderRow view) ([], (s.renderRow view ([], last) y).2)).2) := by
      change (columnsFrom y (n + 1)).foldl _ _ = _
      rw [columnsFrom_succ, List.foldl_cons]
      exact foldl_renderRow s view _ _ _
    clear_value r
    subst hr
    generalize s.renderRow view ([], last) y = turn at hcomplete hlast hrow
    obtain ⟨text, attr⟩ := turn
    dsimp only at hcomplete hlast hrow ⊢
    obtain ⟨hrest, hlast', row, col, wrap, hreceive⟩ := ih (y + 1) { t with
        lines := done ++ (s.paintedRow view y ++ List.replicate (t.width - (view.right - view.left + 1).toNat) b) ::
          List.replicate (n + m) (List.replicate t.width b)
        row := done.length
        col := col
        wrap := wrap
        pen := colorsOf attr } attr
      (done ++ [s.paintedRow view y ++ List.replicate (t.width - (view.right - view.left + 1).toNat) b])
      (by push_cast at hy; omega) (by omega) hwidth (by simp) (by simp; omega) (.inl rfl)
    refine ⟨hcomplete.append hrest, fun _ => ?_, row, col, wrap, ?_⟩
    · rcases Nat.eq_zero_or_pos n with rfl | hn
      · rw [show view.bottom = y by push_cast at hy; omega, ← hlast]
        rfl
      · exact hlast' (by omega)
    · rw [Display.receive_append hcomplete, hrow, hreceive, columnsFrom_succ]
      simp

end ScreenBuffer

namespace ScreenSession

open ScreenBuffer (PrintableView leadColumn paintedRow columnsFrom renderRow)

variable {cw : Char32 → Int} {s : ScreenSession} {d : Display}

/-- The display shows the viewport in its top left corner, and blanks elsewhere;
its cursor is the one of the console, its pen the one of the last glyph. -/
structure Rendered (s : ScreenSession) (d d' : Display) : Prop where
  lines : d'.lines =
    ((columnsFrom s.sb.viewport.rect.top s.sb.viewport.size.y.toNat).map fun y => s.sb.paintedRow s.sb.viewport.rect y ++
      List.replicate (d.width - s.sb.viewport.size.x.toNat) ⟨[0x20], 1, ⟨d.pen⟩⟩) ++
    List.replicate (d.lines.length - s.sb.viewport.size.y.toNat) d.blankLine
  row : (d'.row : Int) = (s.sb.viewport.clampedRelativePosition s.state.position).y
  col : (d'.col : Int) = (s.sb.viewport.clampedRelativePosition s.state.position).x
  pen : d'.pen = colorsOf (s.sb.cellAt (s.sb.leadColumn s.sb.viewport.rect.bottom s.sb.viewport.rect.left
    s.sb.viewport.rect.right) s.sb.viewport.rect.bottom).attr.legacy

theorem clampedRelativePosition_mem {v : ConsoleViewport} (hx : 1 ≤ v.size.x ∧ v.size.x ≤ 0x7FFF)
    (hy : 1 ≤ v.size.y ∧ v.size.y ≤ 0x7FFF) (position : Coord) :
    (0 ≤ (v.clampedRelativePosition position).x ∧ (v.clampedRelativePosition position).x ≤ v.size.x - 1) ∧
      0 ≤ (v.clampedRelativePosition position).y ∧ (v.clampedRelativePosition position).y ≤ v.size.y - 1 := by
  have hw : i16 (v.size.x - 1) = v.size.x - 1 := i16_of_range (by omega) (by omega)
  have hh : i16 (v.size.y - 1) = v.size.y - 1 := i16_of_range (by omega) (by omega)
  rw [ConsoleViewport.clampedRelativePosition, hw, hh]
  exact ⟨⟨le_clamp (by omega), clamp_le (by omega)⟩, le_clamp (by omega), clamp_le (by omega)⟩

variable (cw) in
/-- The screen is cleared in the pen that the display has. -/
theorem receive_clear (d : Display) : Display.Complete vtWriteClearScreen ∧ d.receive cw vtWriteClearScreen = { d with
    lines := List.replicate d.lines.length d.blankLine
    row := 0
    col := 0
    wrap := false } := by
  have hrun : Lib.Transducer.run VtParser.charStep {} vtWriteClearScreen =
      ([⟨.eraseInDisplay, { payload := .eraseMode 2 }, chars ['\x1b', '[', '2', 'J']⟩,
        ⟨.cursorPosition, { payload := .position 1 1 }, chars ['\x1b', '[', 'H']⟩], {}) := by decide
  refine ⟨by rw [Display.Complete, hrun], ?_⟩
  rw [Display.receive_eq, hrun]
  simp [Emitted.seen, VtMessageId.carries, VtMessageId.sentBare, Display.execute, TerminalScreen.execute]

variable (cw d) in
theorem rendered (h : s.sb.Whole) (hp : s.sb.PrintableView cw s.sb.viewport.rect)
    (hfirst : (s.sb.cellAt s.sb.viewport.rect.left s.sb.viewport.rect.top).attr.legacy ≠ 0xFFFF)
    (hwidth : s.sb.viewport.size.x ≤ d.width) (hheight : s.sb.viewport.size.y ≤ d.lines.length) :
    s.Rendered d (d.receive cw s.snapshot) := by
  obtain ⟨hleft, hleftRight, hright, htop, htopBottom, hbottom⟩ := h.inside
  have hx := h.sized.width
  have hy := h.sized.height
  obtain ⟨hsx, hsy⟩ : s.sb.viewport.size.x = s.sb.viewport.rect.right - s.sb.viewport.rect.left + 1 ∧
      s.sb.viewport.size.y = s.sb.viewport.rect.bottom - s.sb.viewport.rect.top + 1 :=
    ⟨i16_of_range (by omega) (by omega), i16_of_range (by omega) (by omega)⟩
  have hsnapshot : s.snapshot = vtWriteClearScreen ++ (vtWriteAttr s.state.defaultAttributes ++
      (((columnsFrom s.sb.viewport.rect.top s.sb.viewport.size.y.toNat).foldl (s.sb.renderRow s.sb.viewport.rect)
        ([], 0xFFFF)).1 ++ vtWriteCup (s.sb.viewport.clampedRelativePosition s.state.position).y
          (s.sb.viewport.clampedRelativePosition s.state.position).x)) := by
    have hcount : (min s.sb.viewport.rect.bottom (s.sb.size.y - 1) - s.sb.viewport.rect.top + 1).toNat =
        s.sb.viewport.size.y.toNat := by omega
    have hedge : min s.sb.viewport.rect.right (i16 (s.sb.size.x - 1)) = s.sb.viewport.rect.right := by
      rw [i16_of_range (by omega) (by omega)]
      omega
    rw [snapshot]
    dsimp only
    rw [hcount, hedge, List.append_assoc, List.append_assoc]
    rfl
  obtain ⟨hclear, hcleared⟩ := receive_clear cw d
  obtain ⟨hattr, hpen⟩ := Display.receive_attr cw s.state.defaultAttributes { d with
    lines := List.replicate d.lines.length d.blankLine
    row := 0
    col := 0
    wrap := false }
  obtain ⟨hrows, hlast, row, col, wrap, hcells⟩ := ScreenBuffer.receive_rows h.sized hp ⟨hleft, hleftRight, hright⟩
    ⟨htop, hbottom⟩ (b := ⟨[0x20], 1, ⟨d.pen⟩⟩) rfl (d.lines.length - s.sb.viewport.size.y.toNat)
    s.sb.viewport.size.y.toNat s.sb.viewport.rect.top { d with
      lines := List.replicate d.lines.length d.blankLine
      row := 0
      col := 0
      pen := colorsOf s.state.defaultAttributes
      wrap := false } 0xFFFF [] (by omega) le_rfl (by dsimp only; omega)
    (by rw [Nat.add_sub_cancel' (by omega)]; rfl) (by simp) (.inr ⟨by omega, hfirst⟩)
  obtain ⟨hpx, hpy⟩ := clampedRelativePosition_mem (v := s.sb.viewport) (by omega) (by omega) s.state.position
  have hcursor := @sends_cup (s.sb.viewport.clampedRelativePosition s.state.position).y
    (s.sb.viewport.clampedRelativePosition s.state.position).x (by omega) (by omega)
  rw [hsnapshot, Display.receive_append hclear, hcleared, Display.receive_append hattr, hpen,
    Display.receive_append hrows]
  dsimp only
  rw [show (s.sb.viewport.rect.right - s.sb.viewport.rect.left + 1).toNat = s.sb.viewport.size.x.toNat by rw [hsx],
    List.nil_append] at hcells
  rw [hcells, (Display.receive_sends cw hcursor _).2, Display.execute_position]
  refine ⟨rfl, ?_, ?_, congrArg colorsOf (hlast (by omega))⟩
  · dsimp only
    rw [List.length_append, List.length_map, List.length_replicate, columnsFrom, List.length_map, List.length_range]
    omega
  · dsimp only
    omega

end ScreenSession

/-- In every state of a session, `render_visible_viewport` shows the viewport on a
display that is large enough for it, whatever the display showed before, when it
measures the glyphs as the buffer does. -/
theorem viewport_rendered (cw : Char32 → Int) (size : TerminalSize) (objects : ObjectTable) (events : List ScreenEvent) :
    ∀ s ∈ ScreenSession.start size objects, EveryState (ScreenSession.handle cw) (fun s =>
      let s := s.renderVisibleViewport
      s.sb.PrintableView cw s.sb.viewport.rect →
      (s.sb.cellAt s.sb.viewport.rect.left s.sb.viewport.rect.top).attr.legacy ≠ 0xFFFF →
      ∀ d : Display, s.sb.viewport.size.x ≤ d.width → s.sb.viewport.size.y ≤ d.lines.length →
        s.Rendered d (d.receive cw s.snapshot)) s events := fun _ hs =>
  @everyState_of_invariant _ _ _ ScreenSession.Holds _
    (fun _ h hp hfirst _ hwidth hheight => ScreenSession.rendered cw _ h.renderVisibleViewport.sb hp hfirst hwidth hheight)
    (fun _ _ _ h hstep => h.handle hstep) events _ (ScreenSession.holds_start hs)

def rowSize : TerminalSize := ⟨⟨3, 1⟩, by decide, by decide⟩

/-- The width of a character where one ideograph is wide. -/
def wideWidth (ch : Char32) : Int := if ch = 0x4E2D then 2 else 1

/-- A wide glyph and a narrow one, on backgrounds of their own. -/
def twoGlyphs : List ScreenEvent :=
  [.terminal (.output true .sgr (.sgr { bg := .indexed 4 })), .terminal (.output true .text (.text [0x4E2D])),
    .terminal (.output true .sgr (.sgr { bg := .indexed 2 })), .terminal (.output true .text (.text [0x61]))]

theorem viewport_rendered_glyphs :
    let d : Display := { lines := [[⟨[0x78], 1, ⟨7⟩⟩, ⟨[0x78], 2, ⟨7⟩⟩, ⟨[0x78], 0, ⟨7⟩⟩]], width := 3, bottom := 0 }
    ∃ s ∈ ScreenSession.start rowSize {}, ∃ s' ∈ twoGlyphs.foldlM (ScreenSession.handle wideWidth) s,
      s'.renderVisibleViewport.Rendered d (d.receive wideWidth s'.renderVisibleViewport.snapshot) ∧
        (d.receive wideWidth s'.renderVisibleViewport.snapshot).lines =
          [[⟨[0x4E2D], 2, ⟨0x17⟩⟩, ⟨[0x4E2D], 0, ⟨0x17⟩⟩, ⟨[0x61], 1, ⟨0x27⟩⟩]] := by
  intro d
  obtain ⟨s, hs, s', hs', hp, hfirst, hwidth, hheight, hlines⟩ : ∃ s ∈ ScreenSession.start rowSize {},
      ∃ s' ∈ twoGlyphs.foldlM (ScreenSession.handle wideWidth) s,
        let t := s'.renderVisibleViewport
        t.sb.PrintableView wideWidth t.sb.viewport.rect ∧
          (t.sb.cellAt t.sb.viewport.rect.left t.sb.viewport.rect.top).attr.legacy ≠ 0xFFFF ∧
          t.sb.viewport.size.x ≤ 3 ∧ t.sb.viewport.size.y ≤ 1 ∧ (d.receive wideWidth t.snapshot).lines =
            [[⟨[0x4E2D], 2, ⟨0x17⟩⟩, ⟨[0x4E2D], 0, ⟨0x17⟩⟩, ⟨[0x61], 1, ⟨0x27⟩⟩]] := by decide +kernel
  have hrendered := (viewport_rendered wideWidth rowSize {} twoGlyphs s hs).foldlM hs'
  exact ⟨s, hs, s', hs', hrendered hp hfirst d hwidth hheight, hlines⟩

end Corehost
