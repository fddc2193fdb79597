import Corehost.Screen.Linear
import Corehost.Screen.TerminalResize

/-!
# The terminal cleared

The model of `apply_terminal_clear` (`pipe_bridge.hpp`), which follows the
terminal when it clears its buffer and keeps the row of the cursor, and of
`fill_attr` (`screen_buffer.hpp`).

* `rows_filled`: a fill of whole rows, whatever it does with a row;
* `terminal_clear_keeps_row`: the row of the cursor is the first of the
  viewport, and every other row of the buffer is blank.
-/

namespace Corehost

open Lib Lib.Strip
open ScreenBufferRow (cellAt_fillCharRow showsSome_fillCharRow fillCharRow)

/-! ## The model -/

namespace ScreenBuffer

/-- What `fill_attr` does with the columns `start, …, start + n - 1` of a row. -/
def fillAttrRow (attr : UInt16) (start n : Nat) (r : ScreenBufferRow) : ScreenBufferRow :=
  r.fillAttrs (u16 start) (u16 (start + n)) (.ofWord attr)

/-- The loop of `fill_attr` over the rows, with the cells that are left and the result. -/
def fillAttrRows (attr : UInt16) (width : Nat) : Nat → Nat → Nat → Nat × FillResult → ScreenBuffer →
    (Nat × FillResult) × ScreenBuffer :=
  eachRow (fun st => 0 < st.1) (fillNext width) fun st x => fillAttrRow attr x (cellsInRow width st.1 x)

def fillAttr (s : ScreenBuffer) (attr : UInt16) (start : Coord) (count : Nat) : FillResult × ScreenBuffer :=
  if s.validY start.y = false ∨ start.x < 0 then ({}, s)
  else if start.x ≥ s.size.x then ({}, s)
  else
    let ((_, r), s) := fillAttrRows attr s.size.x.toNat (s.size.y - start.y).toNat start.x.toNat start.y.toNat (count, {}) s
    (r, s)

/-- `fill_char` with blanks, then `fill_attr`. -/
def fillBlank (s : ScreenBuffer) (attr : UInt16) (start : Coord) (count : Nat) : ScreenBuffer :=
  ((s.fillChar 0x20 start count).2.fillAttr attr start count).2

/-- What `apply_terminal_clear` does with the rows above row `top` and below it. -/
def fillAround (s : ScreenBuffer) (attr : UInt16) (top : Int) : ScreenBuffer :=
  let cols := s.size.x.toNat
  let s := if top > 0 then s.fillBlank attr ⟨0, 0⟩ (cols * top.toNat) else s
  let below := i16 (top + 1)
  if below < s.size.y then s.fillBlank attr ⟨0, below⟩ (cols * (s.size.y - below).toNat) else s

end ScreenBuffer

/-- `apply_terminal_clear`, but for the mark of a pending new line. -/
def TerminalScreens.applyTerminalClear (c : TerminalScreens) (keepCursorRow : Bool) : TerminalScreens :=
  let view := c.sb.viewport.rect
  let attr := c.state.defaultAttributes
  let c := { c with state := { c.state with pendingWrap := false } }
  let c :=
    if keepCursorRow then { c with
      sb := (c.sb.shiftRows (i16 (view.top - c.state.position.y)) attr).fillAround attr view.top
      state := { c.state with position := ⟨c.state.position.x, view.top⟩ } }
    else { c with sb := c.sb.clear attr, state := { c.state with position := ⟨view.left, view.top⟩ } }
  if c.cursorValid then { c with terminalCursor := c.sb.viewport.relativePosition c.state.position, cursorValid := true }
  else c

/-! ## Whole rows -/

namespace ScreenBufferRow

variable {r : ScreenBufferRow} {w : Nat}

theorem showsSome_fillAttrs (h : r.ShowsSome w) (start stop : Nat) (a : TextAttribute) :
    (r.fillAttrs start stop a).ShowsSome w := by
  obtain ⟨gs, as, h⟩ := h
  exact ⟨gs, _, h.fillAttrs start stop a⟩

/-- The attributes of a whole row: the characters stay. -/
theorem cellAt_fillAttrs_row (h : r.ShowsSome w) (a : TextAttribute) {d : Nat} (hd : d < w) :
    (r.fillAttrs 0 w a).cellAt d = { r.cellAt d with attr := a } := by
  obtain ⟨gs, as, h⟩ := h
  have hlen := h.length_attrs
  have hfill := h.fillAttrs 0 w a
  rw [Nat.min_self, if_pos (Nat.zero_le w), ← hlen, fillRange_all, hlen] at hfill
  have hold := h.cellAt_eq hd
  have hnew := hfill.cellAt_eq hd
  have hattr : (List.replicate w a).getD d {} = a := by
    rw [List.getD_eq_getElem?_getD, List.getElem?_replicate_of_lt (by omega), Option.getD_some]
  rw [hattr] at hnew
  cases hcell : (cells gs)[d]? with
  | none => rw [hcell] at hold; exact absurd hold (by simp)
  | some x =>
    rw [hcell, Option.map_some, Option.some_inj] at hold hnew
    rw [hnew, hold]
    rfl

end ScreenBufferRow

namespace ScreenBuffer

variable {s : ScreenBuffer}

/-- A buffer whose rows `y, …, y + n - 1` have gone through `f`, all others being as before. -/
structure RowsChanged (f : ScreenBufferRow → ScreenBufferRow) (y n : Nat) (s s' : ScreenBuffer) : Prop where
  sized : s'.Sized
  size : s'.size = s.size
  viewport : s'.viewport = s.viewport
  rows : ∀ i : Nat, (i : Int) < s.size.y → s'.row i = if y ≤ i ∧ i < y + n then f (s.row i) else s.row i

theorem RowsChanged.trans {f g : ScreenBufferRow → ScreenBufferRow} {y n : Nat} {s' s'' : ScreenBuffer}
    (h : RowsChanged f y n s s') (h' : RowsChanged g y n s' s'') : RowsChanged (fun r => g (f r)) y n s s'' where
  sized := h'.sized
  size := h'.size.trans h.size
  viewport := h'.viewport.trans h.viewport
  rows i hi := by
    rw [h'.rows i (by rw [h.size]; exact hi), h.rows i hi]
    split_ifs <;> rfl

/-- As many cells as `n` rows have, from the first column of row `y` on. -/
theorem rows_filled (h : s.Sized) {f : Nat → Nat → ScreenBufferRow → ScreenBufferRow}
    (hf : ∀ (w x n : Nat) (r : ScreenBufferRow), r.ShowsSome w → (f x n r).ShowsSome w) {y n : Nat}
    (hn : y + n ≤ s.size.y.toNat) :
    RowsChanged (f 0 s.size.x.toNat) y n s
      (eachRow (fun st : Nat × FillResult => decide (0 < st.1)) (fillNext s.size.x.toNat)
        (fun st x => f x (cellsInRow s.size.x.toNat st.1 x)) (s.size.y - y).toNat 0 y (s.size.x.toNat * n, {}) s).2 := by
  have hw := h.width
  have hh := h.height
  obtain ⟨-, hsized, hsize, hview, hrows⟩ := eachRow_spec (fun st : Nat × FillResult => decide (0 < st.1))
    (fillNext s.size.x.toNat) (fun st x => f x (cellsInRow s.size.x.toNat st.1 x))
    (fun w st x r hr => hf w x _ r hr) (s.size.y - y).toNat 0 y (s.size.x.toNat * n, {}) h (by omega)
  refine ⟨hsized, hsize, hview, fun i hi => ?_⟩
  rw [hrows i hi, rowState_fill (by omega), ite_self]
  generalize hW : s.size.x.toNat = W at *
  -- The cells that are left in front of row `i`.
  have hleft : y ≤ i → i < y + n → W ≤ W * n - (i - y) * W := by
    intro h1 h2
    have hmul : (i - y + 1) * W ≤ n * W := Nat.mul_le_mul_right W (by omega)
    rw [Nat.succ_mul, Nat.mul_comm n] at hmul
    omega
  have hdone : y + n ≤ i → W * n - (i - y) * W = 0 := by
    intro h1
    have hmul : n * W ≤ (i - y) * W := Nat.mul_le_mul_right W (by omega)
    rw [Nat.mul_comm n] at hmul
    omega
  rw [Nat.sub_zero]
  by_cases hin : y ≤ i ∧ i < y + n
  · have hge := hleft hin.1 hin.2
    rw [if_pos ⟨by omega, decide_eq_true (by omega)⟩, if_pos hin, cellsInRow]
    split_ifs with hlt
    · omega
    · rw [Nat.sub_zero]
  · rw [if_neg hin, if_neg]
    rintro ⟨hrange, hpos⟩
    have := hdone (by omega)
    simp only [decide_eq_true_eq] at hpos
    omega

theorem fillChar_rows (h : s.Sized) (cp : Char32) {y n : Nat} (hy : (y : Int) < s.size.y) (hn : y + n ≤ s.size.y.toNat) :
    RowsChanged (fillCharRow cp 0 s.size.x.toNat) y n s (s.fillChar cp ⟨0, y⟩ (s.size.x.toNat * n)).2 := by
  have hw := h.width
  have hfill := rows_filled h (fun w x n r hr => showsSome_fillCharRow hr cp x n) hn
  have hvalid : s.valid ⟨0, y⟩ = true := valid_iff.mpr ⟨⟨Int.le_refl _, show (0 : Int) < s.size.x from by omega⟩, Int.natCast_nonneg y, hy⟩
  rw [fillChar_eq, if_pos hvalid]
  exact hfill

theorem fillAttr_rows (h : s.Sized) (attr : UInt16) {y n : Nat} (hy : (y : Int) < s.size.y) (hn : y + n ≤ s.size.y.toNat) :
    RowsChanged (fillAttrRow attr 0 s.size.x.toNat) y n s (s.fillAttr attr ⟨0, y⟩ (s.size.x.toNat * n)).2 := by
  have hw := h.width
  have hfill := rows_filled h (fun w x n r hr => ScreenBufferRow.showsSome_fillAttrs hr (u16 x) (u16 (x + n)) (.ofWord attr)) hn
  have hy' : s.validY (y : Int) = true := by
    simp only [validY, Bool.and_eq_true, decide_eq_true_eq]
    exact ⟨Int.natCast_nonneg y, hy⟩
  unfold fillAttr
  dsimp only
  rw [if_neg (by rw [hy']; simp), if_neg (show ¬ (0 : Int) ≥ s.size.x from not_le.mpr (by omega))]
  exact hfill

/-- A blank of the attribute. -/
def blankCell (attr : UInt16) : ScreenBufferRow.Cell := ⟨[0x20], 1, .ofWord attr⟩

/-- The rows are blank after the two fills. -/
theorem cellAt_fillBlank (h : s.Sized) (attr : UInt16) {y n : Nat} (hy : (y : Int) < s.size.y) (hn : y + n ≤ s.size.y.toNat) :
    (s.fillBlank attr ⟨0, y⟩ (s.size.x.toNat * n)).Sized ∧
      (s.fillBlank attr ⟨0, y⟩ (s.size.x.toNat * n)).size = s.size ∧
      (s.fillBlank attr ⟨0, y⟩ (s.size.x.toNat * n)).viewport = s.viewport ∧
      ∀ i : Nat, (i : Int) < s.size.y → ∀ x : Nat, (x : Int) < s.size.x →
        (s.fillBlank attr ⟨0, y⟩ (s.size.x.toNat * n)).cellAt x i =
          if y ≤ i ∧ i < y + n then blankCell attr else s.cellAt x i := by
  have hw := h.width
  have hchar := fillChar_rows h 0x20 hy hn
  have hattr := fillAttr_rows hchar.sized attr (by rw [hchar.size]; exact hy) (by rw [hchar.size]; exact hn)
  rw [hchar.size] at hattr
  have hboth := hchar.trans hattr
  refine ⟨hboth.sized, hboth.size, hboth.viewport, fun i hi x hx => ?_⟩
  have hrow := showsSome_row h hi
  rw [cellAt, show (s.fillBlank attr ⟨0, y⟩ (s.size.x.toNat * n)).row i = _ from hboth.rows i hi]
  split_ifs with hin
  · rw [fillAttrRow, Nat.zero_add, u16_of_lt (n := 0) (by omega), u16_of_lt (n := s.size.x.toNat) (by omega),
      ScreenBufferRow.cellAt_fillAttrs_row (showsSome_fillCharRow hrow 0x20 0 _) _ (by omega),
      cellAt_fillCharRow hrow 0x20 (by omega) (by omega) (by omega), if_pos (by omega)]
    rfl
  · rfl

/-- The row that is moved to the top of the viewport. -/
theorem shiftRows_top (h : s.Sized) (hin : s.viewport.Inside s.size) (attr : UInt16) {y : Int}
    (hy : s.viewport.rect.top ≤ y ∧ y ≤ s.viewport.rect.bottom) :
    (s.shiftRows (i16 (s.viewport.rect.top - y)) attr).Sized ∧
      (s.shiftRows (i16 (s.viewport.rect.top - y)) attr).size = s.size ∧
      (s.shiftRows (i16 (s.viewport.rect.top - y)) attr).viewport = s.viewport ∧
      (s.shiftRows (i16 (s.viewport.rect.top - y)) attr).row s.viewport.rect.top = s.row y := by
  have htop := hin.top
  have hbottom := hin.bottom
  have hh := h.height
  by_cases hmoves : y = s.viewport.rect.top
  · have hzero : s.shiftRows (i16 (s.viewport.rect.top - y)) attr = s := by
      rw [hmoves, Int.sub_self, shiftRows, if_pos (show i16 0 = 0 from rfl)]
    rw [hzero]
    exact ⟨h, rfl, rfl, by rw [hmoves]⟩
  · have hk : 0 < y - s.viewport.rect.top ∧ y - s.viewport.rect.top ≤ 0x7FFF := by omega
    have hsplit : s.viewport.rect.top - y = -(y - s.viewport.rect.top) := by omega
    obtain ⟨hsized, hsize, hrows⟩ := row_shiftRows h hin attr hk
    rw [hsplit]
    refine ⟨hsized, hsize, ?_, ?_⟩
    · unfold shiftRows
      split
      · rfl
      · exact (sameFrame_scroll ..).viewport
    · rw [hrows _ (by omega)]
      congr 1
      omega

end ScreenBuffer

/-! ## The row of the cursor -/

namespace TerminalScreens

open ScreenBuffer (blankCell cellAt_fillBlank shiftRows_top)

/-- Filling the rows above the viewport's first one, then those below, leaves that one. -/
theorem cellAt_fillAround {s : ScreenBuffer} (h : s.Sized) (attr : UInt16) {top : Int} (htop : 0 ≤ top ∧ top < s.size.y) :
    (s.fillAround attr top).Sized ∧ (s.fillAround attr top).size = s.size ∧ (s.fillAround attr top).viewport = s.viewport ∧
      ∀ i : Nat, (i : Int) < s.size.y → ∀ x : Nat, (x : Int) < s.size.x →
        (s.fillAround attr top).cellAt x i = if (i : Int) = top then s.cellAt x i else blankCell attr := by
  have hh := h.height
  obtain ⟨top, rfl⟩ := Int.eq_ofNat_of_zero_le htop.1
  have hbelow : i16 ((top : Int) + 1) = ((top + 1 : Nat) : Int) := i16_of_range (by omega) (by omega)
  have habove : ∃ t : ScreenBuffer, t = (if (top : Int) > 0 then s.fillBlank attr ⟨0, 0⟩ (s.size.x.toNat * (top : Int).toNat) else s) ∧
      t.Sized ∧ t.size = s.size ∧ t.viewport = s.viewport ∧
      ∀ i : Nat, (i : Int) < s.size.y → ∀ x : Nat, (x : Int) < s.size.x →
        t.cellAt x i = if i < top then blankCell attr else s.cellAt x i := by
    refine ⟨_, rfl, ?_⟩
    by_cases hpos : (top : Int) > 0
    · rw [if_pos hpos, Int.toNat_natCast]
      obtain ⟨h1, h2, h3, h4⟩ := cellAt_fillBlank h attr (y := 0) (n := top) (by omega) (by omega)
      refine ⟨h1, h2, h3, fun i hi x hx => (h4 i hi x hx).trans ?_⟩
      simp only [Nat.zero_le, true_and, Nat.zero_add]
    · rw [if_neg hpos]
      exact ⟨h, rfl, rfl, fun i _ x _ => by rw [if_neg (by omega)]⟩
  obtain ⟨t, ht, h1, h2, h3, h4⟩ := habove
  unfold ScreenBuffer.fillAround
  dsimp only
  rw [← ht, hbelow, h2]
  by_cases hroom : ((top + 1 : Nat) : Int) < s.size.y
  · rw [if_pos hroom, ← h2]
    obtain ⟨h5, h6, h7, h8⟩ := cellAt_fillBlank h1 attr (y := top + 1) (n := (t.size.y - ((top + 1 : Nat) : Int)).toNat)
      (by rw [h2]; exact hroom) (by rw [h2]; omega)
    refine ⟨h5, h6, h7.trans h3, fun i hi x hx => ?_⟩
    rw [h8 i hi x hx, h4 i (by rw [← h2]; exact hi) x (by rw [← h2]; exact hx)]
    rw [h2] at hi ⊢
    split_ifs <;> first | rfl | omega
  · rw [if_neg hroom]
    refine ⟨h1, h2, h3, fun i hi x hx => ?_⟩
    rw [h4 i hi x hx]
    split_ifs <;> first | rfl | omega

theorem applyTerminalClear_keep (c : TerminalScreens) :
    (c.applyTerminalClear true).sb = (c.sb.shiftRows (i16 (c.sb.viewport.rect.top - c.state.position.y))
        c.state.defaultAttributes).fillAround c.state.defaultAttributes c.sb.viewport.rect.top ∧
      (c.applyTerminalClear true).state.position = ⟨c.state.position.x, c.sb.viewport.rect.top⟩ ∧
      (c.applyTerminalClear true).cursorValid = c.cursorValid ∧
      ((c.applyTerminalClear true).cursorValid = true → (c.applyTerminalClear true).terminalCursor =
        (c.applyTerminalClear true).sb.viewport.relativePosition (c.applyTerminalClear true).state.position) := by
  unfold applyTerminalClear
  dsimp only
  rw [if_pos rfl]
  by_cases hvalid : c.cursorValid = true
  · rw [if_pos hvalid]
    exact ⟨rfl, rfl, hvalid.symm, fun _ => rfl⟩
  · rw [if_neg hvalid]
    exact ⟨rfl, rfl, rfl, fun hh => absurd hh hvalid⟩

/-- After the terminal has cleared its buffer and kept the row of the cursor,
this row is the first one of the viewport, every other row of the buffer is
blank, and the cursor stays in its column. -/
theorem terminal_clear_keeps_row (c : TerminalScreens) (h : c.sb.Sized) (hin : c.sb.viewport.Inside c.sb.size)
    (hcursor : c.sb.viewport.contains c.state.position = true) :
    let c' := c.applyTerminalClear true
    let top := c.sb.viewport.rect.top
    (c'.sb.Sized ∧ c'.sb.size = c.sb.size ∧ c'.sb.viewport = c.sb.viewport) ∧
      (∀ x y : Int, 0 ≤ x ∧ x < c.sb.size.x → 0 ≤ y ∧ y < c.sb.size.y → c'.sb.cellAt x y =
        if y = top then c.sb.cellAt x c.state.position.y else blankCell c.state.defaultAttributes) ∧
      c'.state.position = ⟨c.state.position.x, top⟩ ∧ c'.cursorValid = c.cursorValid ∧
      (c'.cursorValid = true → c'.terminalCursor = c'.sb.viewport.relativePosition c'.state.position) := by
  intro c' top
  have hview : top ≤ c.state.position.y ∧ c.state.position.y ≤ c.sb.viewport.rect.bottom := by
    simp only [ConsoleViewport.contains, Bool.and_eq_true, decide_eq_true_eq] at hcursor
    exact ⟨hcursor.1.2, hcursor.2⟩
  have htop : 0 ≤ top ∧ top < c.sb.size.y := ⟨hin.top, by have := hin.bottom; have := hin.topBottom; omega⟩
  obtain ⟨hs, hsize, hsv, hrow⟩ := shiftRows_top h hin c.state.defaultAttributes hview
  obtain ⟨h1, h2, h3, h4⟩ := cellAt_fillAround hs c.state.defaultAttributes (by rw [hsize]; exact htop)
  obtain ⟨hsb, hposition, hvalid, hterminal⟩ := applyTerminalClear_keep c
  refine ⟨?_, fun x y hx hy => ?_, hposition, hvalid, hterminal⟩
  · rw [show c'.sb = _ from hsb]
    exact ⟨h1, h2.trans hsize, h3.trans hsv⟩
  · obtain ⟨x, rfl⟩ := Int.eq_ofNat_of_zero_le hx.1
    obtain ⟨y, rfl⟩ := Int.eq_ofNat_of_zero_le hy.1
    rw [show c'.sb = _ from hsb]
    refine (h4 y (by rw [hsize]; exact hy.2) x (by rw [hsize]; exact hx.2)).trans ?_
    by_cases htopRow : (y : Int) = top
    · rw [if_pos htopRow, if_pos htopRow, htopRow]
      exact congrArg (fun r : ScreenBufferRow => r.cellAt x) hrow
    · rw [if_neg htopRow, if_neg htopRow]

/-- Three rows with text, stored from the second one on, with the last two in
the viewport and the cursor in the last one. -/
def clearedScreens : TerminalScreens where
  sb := ScreenBuffer.run (.ofSize ⟨3, 3⟩) [.shiftRows (-1) 0x07, .writeGlyph ⟨0, 0⟩ 0x78 1 0x07, .writeGlyph ⟨1, 1⟩ 0x79 1 0x07,
    .writeGlyph ⟨0, 2⟩ 0x4E2D 2 0x1E, .writeGlyph ⟨2, 2⟩ 0x61 1 0x2F, .setRect ⟨0, 1, 2, 2⟩]
  state := { position := ⟨2, 2⟩ }
  cursorValid := true

theorem terminal_clear_keeps_row_second :
    let c' := clearedScreens.applyTerminalClear true
    (List.range 3).map (fun (x : Nat) => c'.sb.cellAt x 0) = List.replicate 3 (blankCell 0x07) ∧
      (List.range 3).map (fun (x : Nat) => c'.sb.cellAt x 1) =
        [⟨[0x4E2D], 2, ⟨0x1E⟩⟩, ⟨[0x4E2D], 0, ⟨0x1E⟩⟩, ⟨[0x61], 1, ⟨0x2F⟩⟩] ∧
      (List.range 3).map (fun (x : Nat) => c'.sb.cellAt x 2) = List.replicate 3 (blankCell 0x07) ∧
      c'.state.position = ⟨2, 1⟩ ∧ c'.terminalCursor = ⟨2, 0⟩ := by
  intro c'
  have hsim := ScreenBuffer.sim_run [.shiftRows (-1) 0x07, .writeGlyph ⟨0, 0⟩ 0x78 1 0x07, .writeGlyph ⟨1, 1⟩ 0x79 1 0x07,
    .writeGlyph ⟨0, 2⟩ 0x4E2D 2 0x1E, .writeGlyph ⟨2, 2⟩ 0x61 1 0x2F, .setRect ⟨0, 1, 2, 2⟩]
    (@ScreenBuffer.sim_ofSize ⟨3, 3⟩ (by decide) (by decide))
  obtain ⟨⟨-, -, hview⟩, hcells, hposition, hvalid, hcursor⟩ :=
    terminal_clear_keeps_row clearedScreens hsim.sized hsim.inside (by decide)
  have hrow (y : Int) (hy : 0 ≤ y ∧ y < 3) : (List.range 3).map (fun (x : Nat) => c'.sb.cellAt x y) =
      (List.range 3).map fun (x : Nat) => if y = 1 then clearedScreens.sb.cellAt x 2 else blankCell 0x07 :=
    List.map_congr_left fun x hx => hcells x y ⟨Int.natCast_nonneg x, Int.ofNat_lt.mpr (List.mem_range.mp hx)⟩ hy
  refine ⟨(hrow 0 (by decide)).trans (by decide), (hrow 1 (by decide)).trans (by decide), (hrow 2 (by decide)).trans (by decide),
    hposition, ?_⟩
  rw [show c'.terminalCursor = _ from hcursor hvalid, hview, hposition]
  decide

end TerminalScreens

end Corehost
