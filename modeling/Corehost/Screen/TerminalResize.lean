import Corehost.Screen.Output
import Corehost.Screen.Resize

/-!
# The terminal in a new size

The model of `apply_terminal_resize` (`pipe_bridge.hpp`), which follows the
terminal when it gets a new size: rows leave at the top when the text and the
cursor do not fit, then the buffer is resized.

* `row_shiftRows`: the rows after they have moved up;
* `KeepsLine`: the rows of the old screen from some row on, with the cursor in
  the row that it was in;
* `terminal_resize_keeps_line_iff`: when `apply_terminal_resize` leaves that.
-/

namespace Corehost

open Lib Lib.Strip
open ScreenBufferRow (copiedCell)

/-! ## The model -/

namespace ScreenBuffer

/-- `row_has_text`. -/
def rowHasText (s : ScreenBuffer) (y : Int) : Bool :=
  s.validY y && (List.range s.size.x.toNat).any fun (x : Nat) => s.atU32 ⟨x, y⟩ != 0 && s.atU32 ⟨x, y⟩ != 0x20

/-- The loop of `apply_terminal_resize` over the rows in front of row `n`, from
the last one on: the rows up to the last one with text. -/
def usedRows (s : ScreenBuffer) (used : Int) : Nat → Int
  | 0 => used
  | n + 1 => if (n : Int) < used then used else if s.rowHasText n then i16 (n + 1) else s.usedRows used n

/-- `viewport.reset_to_buffer(size)`, then `resize(size)`. -/
def resetTo (s : ScreenBuffer) (size : Coord) : ScreenBuffer :=
  { s with viewport := .ofBuffer size }.resize size

end ScreenBuffer

/-- A console with the sizes that `console_state` holds. `sb` is the active
screen buffer, `behind` the main one while another one is active. -/
structure TerminalScreens extends Console where
  screenBufferSize : Coord := defaultConsoleSize
  maxWindowSize : Coord := defaultConsoleSize
  behind : Option ScreenBuffer := none
  /-- `alt_screen_cursor.has_state`. -/
  altScreenCursor : Bool := false
  resizedInAltScreen : Bool := false
  /-- `cursor_valid`, `cursor` and `_enter_dest` of `_terminal`. -/
  cursorValid : Bool := false
  terminalCursor : Coord := {}
  enterDest : Coord := {}
deriving DecidableEq, Repr

namespace TerminalScreens

/-- `clamp_cursor_to_buffer`. -/
def clampCursorToBuffer (c : TerminalScreens) : TerminalScreens :=
  { c with state := { c.state with
      position := ⟨clamp c.state.position.x 0 (i16 (c.screenBufferSize.x - 1)),
                   clamp c.state.position.y 0 (i16 (c.screenBufferSize.y - 1))⟩ } }

/-- `shift_enter_dest`. -/
def shiftEnterDest (c : TerminalScreens) (dy rows : Int) : TerminalScreens :=
  let y := c.enterDest.y + dy
  { c with enterDest := ⟨c.enterDest.x, i16 (if y < 0 then 0 else if y ≥ rows then rows - 1 else y)⟩ }

/-- How many rows `apply_terminal_resize` takes from the top. -/
def shift (c : TerminalScreens) (newSize : Coord) : Int :=
  let used := c.sb.usedRows (i16 (c.state.position.y + 1)) c.sb.size.y.toNat
  if used > newSize.y then i16 (used - newSize.y) else 0

/-- `apply_terminal_resize`, in front of the input record and the question for
the cursor. -/
def applyTerminalResize (c : TerminalScreens) (newSize : Coord) : TerminalScreens :=
  let shift := c.shift newSize
  let c := { c with state := { c.state with pendingWrap := false } }
  let c :=
    if shift > 0 then { c with
      sb := c.sb.shiftRows (i16 (-shift)) c.state.defaultAttributes
      state := { c.state with position := ⟨c.state.position.x, i16 (c.state.position.y - shift)⟩ } }
    else c
  let c := { c with
    screenBufferSize := newSize
    maxWindowSize := newSize
    sb := c.sb.resetTo newSize
    behind := c.behind.map fun sbuf : ScreenBuffer => sbuf.resetTo newSize
    resizedInAltScreen := c.altScreenCursor || c.behind.isSome || c.resizedInAltScreen }.clampCursorToBuffer
  let c :=
    if c.cursorValid then { c with terminalCursor := c.sb.viewport.relativePosition c.state.position, cursorValid := true }
    else c
  c.shiftEnterDest (i16 (-shift)) newSize.y

end TerminalScreens

/-! ## The rows that are used -/

namespace ScreenBuffer

variable {s : ScreenBuffer} {used : Int} {n : Nat}

theorem rowHasText_of_ge {y : Int} (hy : s.size.y ≤ y) : s.rowHasText y = false := by
  have hv : s.validY y = false := by
    simp only [validY, Bool.and_eq_false_iff, decide_eq_false_iff_not]
    omega
  rw [rowHasText, hv, Bool.false_and]

variable (s used) in
/-- No row with text is left out, and the last one has text if there is one below the cursor. -/
theorem usedRows_spec : ∀ n : Nat, n ≤ 0x7FFF → 0 ≤ used →
    (used ≤ s.usedRows used n ∧ (s.usedRows used n ≤ n ∨ s.usedRows used n = used)) ∧
      (∀ y : Int, s.usedRows used n ≤ y ∧ y < n → s.rowHasText y = false) ∧
      (s.usedRows used n ≠ used → s.rowHasText (s.usedRows used n - 1) = true)
  | 0, _, _ => ⟨⟨Int.le_refl _, .inr rfl⟩, fun y hy => by unfold usedRows at hy; omega, fun h => absurd rfl h⟩
  | n + 1, hn, h0 => by
    obtain ⟨⟨hle, hge⟩, hnone, htext⟩ := usedRows_spec n (by omega) h0
    unfold usedRows
    split_ifs with hused hrow
    · exact ⟨⟨Int.le_refl _, .inr rfl⟩, fun y hy => by omega, fun h => absurd rfl h⟩
    · rw [i16_of_range (by omega) (by omega)]
      refine ⟨⟨by omega, .inl (by omega)⟩, fun y hy => by omega, fun _ => ?_⟩
      rwa [Int.add_sub_cancel]
    · refine ⟨⟨hle, by omega⟩, fun y hy => ?_, htext⟩
      by_cases hy' : y = n
      · rw [hy']
        exact Bool.eq_false_iff.mpr hrow
      · exact hnone y (by omega)

/-! ## The rows after they have moved up -/

theorem row_shiftRows (h : s.Sized) (hin : s.viewport.Inside s.size) (attr : UInt16) {k : Int} (hk : 0 < k ∧ k ≤ 0x7FFF) :
    (s.shiftRows (i16 (-k)) attr).Sized ∧ (s.shiftRows (i16 (-k)) attr).size = s.size ∧
      ∀ y : Int, 0 ≤ y ∧ y + k < s.size.y → (s.shiftRows (i16 (-k)) attr).row y = s.row (y + k) := by
  have hw := h.width
  have hh := h.height
  have hcount := h.count
  have hall : s.clampRect ⟨0, 0, s.size.x - 1, s.size.y - 1⟩ = ⟨0, 0, s.size.x - 1, s.size.y - 1⟩ := by
    unfold clampRect
    simp only [SmallRect.mk.injEq]
    omega
  have hshift : s.shiftRows (i16 (-k)) attr =
      s.scroll ⟨0, 0, s.size.x - 1, s.size.y - 1⟩ ⟨0, 0, s.size.x - 1, s.size.y - 1⟩ false ⟨0, 0 + -k⟩ 0x20 attr := by
    rw [shiftRows, i16_of_range (by omega) (by omega), if_neg (by omega), Int.zero_add]
    dsimp only
    rw [i16_of_range (by omega) (by omega), i16_of_range (by omega) (by omega)]
  obtain ⟨hslid, hframe⟩ := scroll_slid 0x20 attr h
    (show (SmallRect.mk 0 0 (s.size.x - 1) (s.size.y - 1)).left ≤ 0 from Int.le_refl _) (Int.le_refl _)
    (show s.clipRect ⟨0, 0, s.size.x - 1, s.size.y - 1⟩ false = s.clampRect ⟨0, 0, s.size.x - 1, s.size.y - 1⟩ by
      rw [hall]
      rfl)
    (show -k ≠ 0 by omega)
  have hnew : (s.shiftRows (i16 (-k)) attr).Sized := (sim_apply (Sim.plain h hin) (.shiftRows (i16 (-k)) attr)).sized
  rw [← hshift, hall] at hslid
  rw [← hshift] at hframe
  refine ⟨hnew, hframe.size, fun y hy => ?_⟩
  have hline := hslid.2 y.toNat (by rw [length_lines]; omega)
  have hrow := (hnew.row_eq (y := y) (by rw [hframe.size]; omega)).1
  have hold := (h.row_eq (y := y + k) hy.2).1
  dsimp only at hline
  rw [if_pos (by omega), if_pos (by omega), hrow, show ((y.toNat : Int) - -k).toNat = (y + k).toNat by omega, hold] at hline
  exact Option.some_inj.mp hline

/-! ## The text of the cells -/

variable {size : Coord}

/-- The character and the width of a cell. -/
def cellText (s : ScreenBuffer) (x y : Int) : List Char32 × Nat := ((s.cellAt x y).glyph, (s.cellAt x y).cols)

/-- What becomes of them in a new size. -/
def resizedText (s : ScreenBuffer) (newSize : Coord) (x y : Int) : List Char32 × Nat :=
  ((s.resizedCell newSize x y).glyph, (s.resizedCell newSize x y).cols)

variable (size) in
/-- The text of a buffer in a new size, whatever the attributes. -/
theorem cellText_resize (h : s.Sized) (hsx : size.x ≤ 0x7FFF) {x y : Int} (hx : 0 ≤ x ∧ x < (fitted size).x)
    (hy : 0 ≤ y ∧ y < (fitted size).y) : (s.resize size).cellText x y = s.resizedText (fitted size) x y := by
  unfold cellText resizedText
  by_cases hne : fitted size = s.size
  · rw [resize_same hne, resizedCell_self h (by rw [hne]) (by rw [← hne]; exact hx) (by rw [← hne]; exact hy)]
  · rw [cellAt_resize size h hsx hne hx hy, resizedCell]
    by_cases hold : x < s.size.x ∧ y < s.size.y
    · have hcell : s.cellAt x y = (s.row y).cellAt (0 + x.toNat) := by rw [cellAt, Nat.zero_add]
      have hcut : ((s.row y).cellAt (0 + x.toNat)).cols = 2 ∧ x.toNat + 1 = (min s.size.x (fitted size).x).toNat ∧
          (min s.size.x (fitted size).x).toNat = (fitted size).x.toNat ↔
          ((s.row y).cellAt (0 + x.toNat)).cols = 2 ∧ x + 1 = (fitted size).x := by omega
      rw [if_pos hold, if_pos hold, hcell, copiedCell]
      dsimp only
      simp only [hcut]
      split_ifs <;> first | rfl | omega
    · rw [if_neg hold, if_neg hold]

theorem fitted_of_pos (hx : 1 ≤ size.x) (hy : 1 ≤ size.y) : fitted size = size :=
  congrArg₂ Coord.mk (show max 1 size.x = size.x by omega) (show max 1 size.y = size.y by omega)

theorem resetTo_spec (s : ScreenBuffer) (hx : 1 ≤ size.x ∧ size.x ≤ 0x7FFF) (hy : 1 ≤ size.y ∧ size.y ≤ 0x7FFF) :
    (s.resetTo size).size = size ∧ (s.resetTo size).viewport = .ofBuffer size := by
  have hin := ConsoleViewport.ofBuffer_inside hx hy
  unfold resetTo
  by_cases hsame : fitted size = s.size
  · rw [resize_same (s := { s with viewport := .ofBuffer size }) hsame]
    exact ⟨hsame.symm.trans (fitted_of_pos hx.1 hy.1), rfl⟩
  · have hcond : ¬ (size.x = s.size.x ∧ size.y = s.size.y) := fun hh =>
      hsame ((fitted_of_pos hx.1 hy.1).trans (congrArg₂ Coord.mk hh.1 hh.2))
    unfold resize
    dsimp only
    rw [if_neg (by rw [if_neg (by omega), if_neg (by omega)]; exact hcond), foldl_rows, if_neg (by omega), if_neg (by omega)]
    have hview : { s with viewport := .ofBuffer size }.linearizeRows.viewport = .ofBuffer size := by
      unfold linearizeRows
      split <;> rfl
    refine ⟨rfl, (congrArg (fun v : ConsoleViewport => (v.clampToBuffer size).2) hview).trans ?_⟩
    exact clampToBuffer_of_inside hx.2 hy.2 hin

end ScreenBuffer

namespace TerminalScreens

open ScreenBuffer

variable {c : TerminalScreens} {newSize : Coord}

/-- The cursor is in a row of the active buffer. -/
def CursorInBuffer (c : TerminalScreens) : Prop := 0 ≤ c.state.position.y ∧ c.state.position.y < c.sb.size.y

instance (c : TerminalScreens) : Decidable c.CursorInBuffer := inferInstanceAs (Decidable (_ ∧ _))

/-- The rows of the old screen from row `k` on are the rows of the new one, with
the cursor in the row that it was in. Rows that are left out below have no text. -/
structure KeepsLine (c c' : TerminalScreens) (newSize : Coord) (k : Nat) : Prop where
  cursor : c'.state.position.y + k = c.state.position.y
  rows : ∀ x y : Int, 0 ≤ x ∧ x < newSize.x → 0 ≤ y ∧ y < newSize.y → c'.sb.cellText x y = c.sb.resizedText newSize x (y + k)
  dropped : ∀ y : Int, k + newSize.y ≤ y → c.sb.rowHasText y = false
  column : 0 ≤ c'.state.position.x ∧ c'.state.position.x < newSize.x
  row : 0 ≤ c'.state.position.y ∧ c'.state.position.y < newSize.y
  size : c'.sb.size = newSize ∧ c'.screenBufferSize = newSize ∧ c'.maxWindowSize = newSize
  viewport : c'.sb.viewport = .ofBuffer newSize
  behind : c'.behind.isSome = c.behind.isSome ∧ ∀ s ∈ c'.behind, s.size = newSize ∧ s.viewport = .ofBuffer newSize

/-- The number of rows that leave at the top. -/
theorem shift_spec (h : c.sb.Sized) (hcursor : c.CursorInBuffer) (hy : 1 ≤ newSize.y ∧ newSize.y ≤ 0x7FFF) :
    (0 ≤ c.shift newSize ∧ c.shift newSize ≤ 0x7FFF) ∧ c.state.position.y < c.shift newSize + newSize.y ∧
      (0 < c.shift newSize → c.shift newSize + newSize.y ≤ c.sb.size.y) ∧
      (∀ y : Int, c.shift newSize + newSize.y ≤ y → c.sb.rowHasText y = false) ∧
      (c.state.position.y < c.shift newSize → c.sb.rowHasText (c.shift newSize + newSize.y - 1) = true) := by
  have hh := h.height
  obtain ⟨h0, hlt⟩ := hcursor
  have hused : i16 (c.state.position.y + 1) = c.state.position.y + 1 := i16_of_range (by omega) (by omega)
  obtain ⟨⟨hle, hge⟩, hnone, htext⟩ :=
    usedRows_spec c.sb (c.state.position.y + 1) c.sb.size.y.toNat (by omega) (by omega)
  unfold shift
  dsimp only
  rw [hused]
  generalize c.sb.usedRows (c.state.position.y + 1) c.sb.size.y.toNat = u at hle hge hnone htext ⊢
  have hnone' (y : Int) (hy : u ≤ y) : c.sb.rowHasText y = false := by
    by_cases hin : y < c.sb.size.y
    · exact hnone y (by omega)
    · exact rowHasText_of_ge (by omega)
  split_ifs with hmore
  · rw [i16_of_range (by omega) (by omega)]
    refine ⟨by omega, by omega, fun _ => by omega, fun y hy => hnone' y (by omega), fun hc => ?_⟩
    rw [show u - newSize.y + newSize.y - 1 = u - 1 by omega]
    exact htext (by omega)
  · exact ⟨by omega, by omega, fun hc => absurd hc (Int.lt_irrefl 0), fun y hy => hnone' y (by omega), fun hc => by omega⟩

/-- The active buffer before it gets its new size. -/
def shiftedBuffer (c : TerminalScreens) (newSize : Coord) : ScreenBuffer :=
  if c.shift newSize > 0 then c.sb.shiftRows (i16 (-c.shift newSize)) c.state.defaultAttributes else c.sb

theorem applyTerminalResize_fields (c : TerminalScreens) (newSize : Coord) :
    let c' := c.applyTerminalResize newSize
    c'.sb = (c.shiftedBuffer newSize).resetTo newSize ∧
      c'.state.position = ⟨clamp c.state.position.x 0 (i16 (newSize.x - 1)),
        clamp (if c.shift newSize > 0 then i16 (c.state.position.y - c.shift newSize) else c.state.position.y) 0
          (i16 (newSize.y - 1))⟩ ∧
      (c'.screenBufferSize = newSize ∧ c'.maxWindowSize = newSize) ∧
      c'.behind = c.behind.map fun sbuf => sbuf.resetTo newSize := by
  unfold applyTerminalResize shiftedBuffer
  dsimp only
  by_cases hshift : c.shift newSize > 0
  · simp only [if_pos hshift]
    split <;> exact ⟨rfl, rfl, ⟨rfl, rfl⟩, rfl⟩
  · simp only [if_neg hshift]
    split <;> exact ⟨rfl, rfl, ⟨rfl, rfl⟩, rfl⟩

theorem resizedText_shiftedBuffer (h : c.sb.Sized) (hin : c.sb.viewport.Inside c.sb.size) (hcursor : c.CursorInBuffer)
    (hy : 1 ≤ newSize.y ∧ newSize.y ≤ 0x7FFF) :
    (c.shiftedBuffer newSize).Sized ∧ ∀ x y : Int, 0 ≤ y ∧ y < newSize.y →
      (c.shiftedBuffer newSize).resizedText newSize x y = c.sb.resizedText newSize x (y + c.shift newSize) := by
  obtain ⟨hrange, -, hfit, -⟩ := shift_spec h hcursor hy
  unfold shiftedBuffer
  by_cases hshift : c.shift newSize > 0
  · obtain ⟨hnew, hsize, hrows⟩ := row_shiftRows h hin c.state.defaultAttributes ⟨hshift, hrange.2⟩
    have := hfit hshift
    rw [if_pos hshift]
    refine ⟨hnew, fun x y hy => ?_⟩
    have hcell : (c.sb.shiftRows (i16 (-c.shift newSize)) c.state.defaultAttributes).cellAt x y =
        c.sb.cellAt x (y + c.shift newSize) := congrArg (fun r : ScreenBufferRow => r.cellAt x.toNat) (hrows y (by omega))
    have hbounds : (x < c.sb.size.x ∧ y < c.sb.size.y) = (x < c.sb.size.x ∧ y + c.shift newSize < c.sb.size.y) :=
      propext (by omega)
    simp only [resizedText, resizedCell, hsize, hcell, hbounds]
  · have h0 : c.shift newSize = 0 := by omega
    rw [if_neg hshift, h0]
    exact ⟨h, fun x y _ => by rw [Int.add_zero]⟩

theorem keepsLine_iff (h : c.sb.Sized) (hin : c.sb.viewport.Inside c.sb.size) (hcursor : c.CursorInBuffer)
    (hx : 1 ≤ newSize.x ∧ newSize.x ≤ 0x7FFF) (hy : 1 ≤ newSize.y ∧ newSize.y ≤ 0x7FFF) :
    (∃ k, c.KeepsLine (c.applyTerminalResize newSize) newSize k) ↔
      ∀ y : Int, c.state.position.y + newSize.y ≤ y → c.sb.rowHasText y = false := by
  obtain ⟨hrange, hbelow, -, hnone, htext⟩ := shift_spec h hcursor hy
  obtain ⟨hsb, hpos, hsizes, hbehind⟩ := applyTerminalResize_fields c newSize
  have hh := h.height
  obtain ⟨h0, hlt⟩ := hcursor
  constructor
  · rintro ⟨k, hk⟩ y hge
    have := hk.cursor
    have := hk.row.1
    exact hk.dropped y (by omega)
  · intro hblank
    have hkept : c.shift newSize ≤ c.state.position.y := by
      by_contra hlost
      have hrow := htext (by omega)
      rw [hblank _ (by omega)] at hrow
      exact absurd hrow (by decide)
    have hcolumn : clamp c.state.position.x 0 (i16 (newSize.x - 1)) =
        clamp c.state.position.x 0 (newSize.x - 1) := by rw [i16_of_range (by omega) (by omega)]
    have hrow : clamp (if c.shift newSize > 0 then i16 (c.state.position.y - c.shift newSize) else c.state.position.y) 0
        (i16 (newSize.y - 1)) = c.state.position.y - c.shift newSize := by
      rw [i16_of_range (n := newSize.y - 1) (by omega) (by omega), i16_of_range (by omega) (by omega)]
      split_ifs <;> rw [clamp_of_mem (by omega) (by omega)]
      omega
    rw [hcolumn, hrow] at hpos
    obtain ⟨hsized, hrows⟩ := resizedText_shiftedBuffer h hin ⟨h0, hlt⟩ hy
    have hfit : fitted newSize = newSize := fitted_of_pos hx.1 hy.1
    obtain ⟨hsize, hview⟩ := resetTo_spec (c.shiftedBuffer newSize) hx hy
    have hcol0 : 0 ≤ clamp c.state.position.x 0 (newSize.x - 1) := le_clamp (by omega)
    have hcol1 : clamp c.state.position.x 0 (newSize.x - 1) ≤ newSize.x - 1 := clamp_le (by omega)
    refine ⟨(c.shift newSize).toNat, ?_, fun x y hx' hy' => ?_, fun y hy' => hnone y (by omega), ?_, ?_,
      ⟨by rw [hsb]; exact hsize, hsizes⟩, by rw [hsb]; exact hview, ?_, ?_⟩
    · rw [hpos]
      dsimp only
      omega
    · have htext := cellText_resize newSize (s := { c.shiftedBuffer newSize with viewport := .ofBuffer newSize })
        ⟨hsized.width, hsized.height, hsized.count, hsized.origin, hsized.rows⟩ hx.2 (by rw [hfit]; exact hx')
        (by rw [hfit]; exact hy')
      rw [hfit] at htext
      rw [hsb, Int.toNat_of_nonneg hrange.1, ← hrows x y hy']
      exact htext
    · rw [hpos]
      dsimp only
      omega
    · rw [hpos]
      dsimp only
      omega
    · rw [hbehind, Option.isSome_map]
    · intro s hs
      rw [hbehind] at hs
      obtain ⟨sbuf, -, rfl⟩ := Option.map_eq_some_iff.mp hs
      exact resetTo_spec sbuf hx hy

end TerminalScreens

open ScreenBuffer (Op run ofSize sim_run sim_ofSize)

/-- `apply_terminal_resize` keeps the row of the cursor, and leaves out rows at
the top and blank rows below the text only, exactly when no row has text that is
as far below the cursor as the new size is high. -/
theorem terminal_resize_keeps_line_iff {sz : Coord} (hx : 1 ≤ sz.x ∧ sz.x ≤ 0x7FFF) (hy : 1 ≤ sz.y ∧ sz.y ≤ 0x7FFF)
    (history : List Op) {c : TerminalScreens} (hsb : c.sb = run (ofSize sz) history) (hcursor : c.CursorInBuffer)
    {newSize : Coord} (hnx : 1 ≤ newSize.x ∧ newSize.x ≤ 0x7FFF) (hny : 1 ≤ newSize.y ∧ newSize.y ≤ 0x7FFF) :
    (∃ k, c.KeepsLine (c.applyTerminalResize newSize) newSize k) ↔
      ∀ y : Int, c.state.position.y + newSize.y ≤ y → c.sb.rowHasText y = false := by
  have hsim := sim_run history (sim_ofSize hx hy)
  rw [← hsb] at hsim
  exact TerminalScreens.keepsLine_iff hsim.sized hsim.inside hcursor hnx hny

/-- The screens after `ops`, with the cursor at the beginning of row `y`. -/
def screensAt (sz : Coord) (ops : List Op) (y : Int) : TerminalScreens :=
  { state := { position := ⟨0, y⟩ }, sb := run (ofSize sz) ops }

/-- Two lines and the cursor in the second one, in a terminal with one row less. -/
theorem terminal_resize_keeps_line_iff_shorter :
    let c := screensAt ⟨2, 3⟩ [.writeGlyph ⟨0, 0⟩ 0x61 1 7, .writeGlyph ⟨0, 2⟩ 0x62 1 7] 2
    ∃ k, c.KeepsLine (c.applyTerminalResize ⟨1, 2⟩) ⟨1, 2⟩ k := by
  intro c
  refine (@terminal_resize_keeps_line_iff ⟨2, 3⟩ (by decide) (by decide)
    [.writeGlyph ⟨0, 0⟩ 0x61 1 7, .writeGlyph ⟨0, 2⟩ 0x62 1 7] c rfl (by decide) ⟨1, 2⟩ (by decide) (by decide)).mpr ?_
  intro y hge
  exact ScreenBuffer.rowHasText_of_ge (show (3 : Int) ≤ y by change 2 + 2 ≤ y at hge; omega)

/-- Text below the cursor takes the only row that is left. -/
theorem terminal_resize_loses_line :
    let c := screensAt ⟨2, 3⟩ [.writeGlyph ⟨0, 0⟩ 0x61 1 7, .writeGlyph ⟨0, 2⟩ 0x62 1 7] 0
    let c' := c.applyTerminalResize ⟨2, 1⟩
    c.sb.atU32 ⟨0, c.state.position.y⟩ = 0x61 ∧ c'.sb.atU32 ⟨0, c'.state.position.y⟩ = 0x62 ∧
      ¬ ∃ k, c.KeepsLine c' ⟨2, 1⟩ k := by
  intro c c'
  refine ⟨by decide, by decide, ?_⟩
  rintro ⟨k, hk⟩
  have hcursor := hk.cursor
  have hy : c'.state.position.y = 0 ∧ c.state.position.y = 0 := by decide
  have htext : c.sb.rowHasText 2 = true := by decide
  rw [hk.dropped 2 (by change (k : Int) + 1 ≤ 2; omega)] at htext
  exact absurd htext (by decide)

end Corehost
