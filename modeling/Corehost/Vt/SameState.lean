import Corehost.Vt.State

/-!
# The console without its cells

What a message does to the state of a console does not depend on the cells.

* `same_…`: scrolling, erasing and inserting leave the size and the viewport;
* `SameState`: the same console but for the cells;
* `applyMessage_same`: a message other than text and the line feed leads from
  such consoles to such consoles;
* `Framed.applyMessage`: the viewport stays inside the buffer.
-/

namespace Corehost

open Lib

/-! ## What is left alone -/

namespace ScreenBuffer

variable {s t : ScreenBuffer}

theorem sameFrame_clearCell (s : ScreenBuffer) (c : Coord) (attr : UInt16) : SameFrame s (s.clearCell c attr) := by
  unfold clearCell
  split
  · exact sameFrame_modifyRow ..
  · exact .refl s

theorem sameFrame_clearTerminalLineRange (s : ScreenBuffer) (y left right : Int) (attr : UInt16) :
    SameFrame s (Console.clearTerminalLineRange s y left right attr) := sameFrame_foldl (fun _ _ => sameFrame_clearCell ..) s _

theorem sameFrame_clearViewportRect (s : ScreenBuffer) (attr : UInt16) (rect : SmallRect) :
    SameFrame s (Console.clearViewportRect s attr rect) := by
  unfold Console.clearViewportRect
  dsimp only
  split
  · exact .refl s
  · exact sameFrame_foldl (fun _ _ => sameFrame_clearTerminalLineRange ..) s _

/-- What `resize` makes of the size and the viewport does not depend on the rows. -/
theorem SameFrame.resize (h : SameFrame s t) (size : Coord) : SameFrame (s.resize size) (t.resize size) := by
  have hview (u : ScreenBuffer) : u.linearizeRows.viewport = u.viewport := (sameFrame_linearizeRows u).viewport
  unfold ScreenBuffer.resize
  dsimp only
  rw [h.size]
  generalize (if size.x < 1 then 1 else size.x) = x, (if size.y < 1 then 1 else size.y) = y
  split
  · exact h
  · simp only [foldl_rows]
    exact ⟨rfl, by simp only [ensureRows, hview, h.viewport]⟩

theorem SameFrame.resetTo (h : SameFrame s t) (size : Coord) : SameFrame (s.resetTo size) (t.resetTo size) :=
  SameFrame.resize (s := { s with viewport := .ofBuffer size }) (t := { t with viewport := .ofBuffer size })
    ⟨h.size, rfl⟩ size

end ScreenBuffer

open ScreenBuffer (SameFrame)

namespace Console

variable {c c' d : Console} {cw : Char32 → Int}

/-- The same console but for the cells. -/
structure Same (c c' : Console) : Prop where
  state : c'.state = c.state
  sb : SameFrame c.sb c'.sb

theorem Same.refl (c : Console) : Same c c := ⟨rfl, .refl _⟩

theorem Same.symm (h : Same c c') : Same c' c := ⟨h.state.symm, h.sb.symm⟩

theorem Same.trans (h : Same c c') (h' : Same c' d) : Same c d := ⟨h'.state.trans h.state, h.sb.trans h'.sb⟩

theorem Same.cells {sb : ScreenBuffer} (h : SameFrame c.sb sb) : Same c { c with sb := sb } := ⟨rfl, h⟩

theorem Same.exists_eq (h : Same c c') : ∃ sb, c' = { c with sb := sb } ∧ SameFrame c.sb sb :=
  ⟨c'.sb, congrArg (Console.mk · c'.sb) h.state, h.sb⟩

theorem Same.moveTo (h : Same c c') (position : Coord) : Same (c.moveTo position) (c'.moveTo position) :=
  ⟨by simp only [Console.moveTo, h.state], h.sb⟩

theorem Same.setWrap (h : Same c c') (pendingWrap : Bool) : Same (c.setWrap pendingWrap) (c'.setWrap pendingWrap) :=
  ⟨by simp only [Console.setWrap, h.state], h.sb⟩

theorem Same.clampCursor (h : Same c c') : Same c.clampCursor c'.clampCursor := by
  unfold Console.clampCursor
  rw [h.sb.viewport, h.state]
  exact h.moveTo _

/-! ## Messages other than text -/

/-- A function that changes cells only. -/
theorem Same.both {f : Console → Console} (hf : ∀ c, Same c (f c)) (h : Same c c') : Same (f c) (f c') :=
  ((hf c).symm.trans h).trans (hf c')

theorem same_scrollRegionBy (dy : Int) (c : Console) : Same c (c.scrollRegionBy dy) := .cells (ScreenBuffer.sameFrame_scroll ..)

theorem same_scrollLinesBy (dy : Int) (c : Console) : Same c (c.scrollLinesBy dy) := by
  unfold scrollLinesBy
  dsimp only
  split
  · exact .cells (ScreenBuffer.sameFrame_scroll ..)
  · exact .refl c

theorem same_insertCharacters (count : Int) (c : Console) : Same c (c.applyTerminalInsertCharacters count) := by
  unfold applyTerminalInsertCharacters
  dsimp only
  split_ifs
  · exact .refl c
  · exact .cells ((ScreenBuffer.sameFrame_modifyRow ..).trans (ScreenBuffer.sameFrame_clearTerminalLineRange ..))
  · exact .cells (ScreenBuffer.sameFrame_clearTerminalLineRange ..)

theorem same_deleteCharacters (count : Int) (c : Console) : Same c (c.applyTerminalDeleteCharacters count) := by
  unfold applyTerminalDeleteCharacters
  dsimp only
  split_ifs
  · exact .refl c
  · exact .cells ((ScreenBuffer.sameFrame_modifyRow ..).trans (ScreenBuffer.sameFrame_clearTerminalLineRange ..))
  · exact .cells (ScreenBuffer.sameFrame_clearTerminalLineRange ..)

theorem same_eraseCharacters (count : Int) (c : Console) : Same c (c.applyTerminalEraseCharacters count) := by
  unfold applyTerminalEraseCharacters
  dsimp only
  split
  · exact .refl c
  · exact .cells (ScreenBuffer.sameFrame_clearTerminalLineRange ..)

theorem same_eraseInDisplay (mode : Int) (c : Console) : Same c (c.applyTerminalEraseInDisplay mode) := by
  unfold applyTerminalEraseInDisplay
  dsimp only
  split_ifs
  · exact .cells ((ScreenBuffer.sameFrame_clearViewportRect ..).trans (ScreenBuffer.sameFrame_clearViewportRect ..))
  · exact .cells ((ScreenBuffer.sameFrame_clearViewportRect ..).trans (ScreenBuffer.sameFrame_clearViewportRect ..))
  · exact .cells (ScreenBuffer.sameFrame_clearViewportRect ..)
  · exact .refl c

theorem same_eraseInLine (mode : Int) (c : Console) : Same c (c.applyTerminalEraseInLine mode) := by
  unfold applyTerminalEraseInLine
  dsimp only
  split_ifs
  · exact .refl c
  · exact .cells (ScreenBuffer.sameFrame_clearViewportRect ..)
  · exact .cells (ScreenBuffer.sameFrame_clearViewportRect ..)
  · exact .cells (ScreenBuffer.sameFrame_clearViewportRect ..)
  · exact .refl c

theorem Same.scroll {sb : ScreenBuffer} (h : SameFrame c.sb sb) (state : ConsoleState) (sr clip : SmallRect) (dest : Coord)
    (attr : UInt16) :
    Same ⟨state, c.sb.scroll sr clip true dest 0x20 attr⟩ ⟨state, sb.scroll sr clip true dest 0x20 attr⟩ :=
  ⟨rfl, ((ScreenBuffer.sameFrame_scroll ..).symm.trans h).trans (ScreenBuffer.sameFrame_scroll ..)⟩

theorem Same.reverseIndex (h : Same c c') : Same c.applyTerminalReverseIndex c'.applyTerminalReverseIndex := by
  obtain ⟨sb, rfl, hsb⟩ := h.exists_eq
  have hclamp : Console.clampCursor { c with sb := sb } = { c.clampCursor with sb := sb } := by
    unfold Console.clampCursor
    rw [hsb.viewport]
    rfl
  unfold applyTerminalReverseIndex
  rw [hclamp]
  dsimp only
  rw [hsb.viewport]
  split
  · exact .scroll (c := c.clampCursor) hsb ..
  · have hsame : Same c.clampCursor { c.clampCursor with sb := sb } := ⟨rfl, hsb⟩
    exact hsame.moveTo _

theorem frame_reverseIndex (c : Console) : SameFrame c.sb c.applyTerminalReverseIndex.sb := by
  unfold applyTerminalReverseIndex
  dsimp only
  split
  · exact ScreenBuffer.sameFrame_scroll ..
  · exact .refl c.sb

theorem frame_scrollingRegion (c : Console) (top bottom : Int) :
    SameFrame c.sb (c.applyTerminalScrollingRegion top bottom).sb := by
  unfold applyTerminalScrollingRegion
  dsimp only
  split_ifs <;> exact .refl c.sb

theorem Same.scrollingRegion (h : Same c c') (top bottom : Int) :
    Same (c.applyTerminalScrollingRegion top bottom) (c'.applyTerminalScrollingRegion top bottom) := by
  obtain ⟨sb, rfl, hsb⟩ := h.exists_eq
  unfold applyTerminalScrollingRegion
  dsimp only
  rw [hsb.viewport]
  split_ifs <;> exact ⟨rfl, hsb⟩

theorem Same.lineFeed (h : Same c c') : Same c.applyTerminalLineFeed c'.applyTerminalLineFeed := by
  obtain ⟨sb, rfl, hsb⟩ := h.exists_eq
  unfold applyTerminalLineFeed
  dsimp only
  rw [hsb.viewport]
  split_ifs
  · exact (Same.scroll hsb ..).moveTo _
  · exact h.moveTo _
  · exact (Same.scroll hsb ..).moveTo _
  · exact h.moveTo _
end Console

namespace VtConsole

variable {s s' : VtConsole}

/-- The same console but for the cells. -/
structure SameState (s s' : VtConsole) : Prop where
  console : s.toConsole.Same s'.toConsole
  rest : s' = { s with toConsole := s'.toConsole }

theorem SameState.refl (s : VtConsole) : SameState s s := ⟨.refl _, rfl⟩

theorem SameState.onConsole {f g : Console → Console} (h : SameState s s')
    (hfg : s.toConsole.Same s'.toConsole → (f s.toConsole).Same (g s'.toConsole)) :
    SameState (s.onConsole f) (s'.onConsole g) := by
  obtain ⟨c, rfl⟩ : ∃ c, s' = { s with toConsole := c } := ⟨_, h.rest⟩
  exact ⟨hfg h.console, rfl⟩

theorem SameState.moveTo (h : SameState s s') (position : Coord) : SameState (s.moveTo position) (s'.moveTo position) :=
  h.onConsole (f := (·.moveTo position)) (g := (·.moveTo position)) (·.moveTo position)

theorem SameState.setAttributes (h : SameState s s') (attr : UInt16) : SameState (s.setAttributes attr) (s'.setAttributes attr) := by
  obtain ⟨c, rfl⟩ : ∃ c, s' = { s with toConsole := c } := ⟨_, h.rest⟩
  obtain ⟨sb, rfl, hsb⟩ := h.console.exists_eq
  exact ⟨⟨rfl, hsb⟩, rfl⟩

/-- `resize_window`, when it ends. -/
theorem SameState.resizeWindow (h : SameState s s') {rows cols : Int} {r : VtConsole} (hr : s.resizeWindow rows cols = some r) :
    ∃ r', s'.resizeWindow rows cols = some r' ∧ SameState r r' := by
  obtain ⟨c, rfl⟩ : ∃ c, s' = { s with toConsole := c } := ⟨_, h.rest⟩
  obtain ⟨sb, rfl, hsb⟩ := h.console.exists_eq
  unfold VtConsole.resizeWindow at hr ⊢
  split_ifs at hr ⊢
  · obtain ⟨stops, hstops, rfl⟩ := Option.map_eq_some_iff.mp hr
    rw [hstops]
    exact ⟨_, rfl, ⟨rfl, hsb.resetTo _⟩, rfl⟩
  · exact ⟨_, rfl, Option.some_inj.mp hr ▸ h⟩

theorem vtMsgApplyState_same (h : SameState s s') (id : VtMessageId) (row col : Int) (payload : VtPayload) :
    SameState (s.vtMsgApplyState id row col payload) (s'.vtMsgApplyState id row col payload) := by
  obtain ⟨c, rfl⟩ : ∃ c, s' = { s with toConsole := c } := ⟨_, h.rest⟩
  obtain ⟨sb, rfl, hsb⟩ := h.console.exists_eq
  have hrestore : SameState s.restoreCursor (restoreCursor { s with toConsole := { s.toConsole with sb := sb } }) := by
    unfold restoreCursor
    dsimp only
    split
    · exact (h.moveTo _).setAttributes _
    · exact h
  cases id with
  | restoreCursor => exact hrestore
  | ansiRestoreCursor => exact hrestore
  | useMainBuffer =>
    change SameState s.useMainBuffer (useMainBuffer { s with toConsole := { s.toConsole with sb := sb } })
    unfold useMainBuffer
    dsimp only
    split
    · exact ⟨⟨rfl, hsb⟩, rfl⟩
    · exact h
  | _ => exact ⟨⟨rfl, hsb⟩, rfl⟩

theorem applyMessage_same (h : SameState s s') (id : VtMessageId) (payload : VtPayload) :
    SameState (s.applyMessage id payload) (s'.applyMessage id payload) := by
  have hview := h.console.sb.viewport
  have hstate := h.console.state
  have hcells {f : Console → Console} (hf : ∀ c, Console.Same c (f c)) : SameState (s.onConsole f) (s'.onConsole f) :=
    h.onConsole (Console.Same.both hf)
  have hcolumn : s'.relativeColumn = s.relativeColumn := by simp only [relativeColumn, hview, hstate]
  have htabs : s'.tabStops = s.tabStops := by rw [h.rest]
  have hstops (stops : List Bool) : SameState { s with tabStops := stops } { s' with tabStops := stops } :=
    ⟨h.console, by rw [h.rest]⟩
  have htab (stop : List Bool → Int → Int) (count : Int) :
      SameState (s.applyTerminalTab stop count) (s'.applyTerminalTab stop count) := by
    unfold applyTerminalTab
    rw [hcolumn, htabs, hview, hstate]
    exact h.moveTo _
  unfold applyMessage
  dsimp only
  rw [hview, hstate, hcolumn, htabs]
  cases id with
  | reverseIndex => exact h.onConsole Console.Same.reverseIndex
  | cursorForwardTab => exact htab _ _
  | cursorBackwardTab => exact htab _ _
  | horizontalTabSet => exact hstops _
  | tabClearCurrent => exact hstops _
  | tabClearAll => exact hstops _
  | scrollUp => exact hcells (Console.same_scrollRegionBy _)
  | scrollDown => exact hcells (Console.same_scrollRegionBy _)
  | insertCharacters => exact hcells (Console.same_insertCharacters _)
  | deleteCharacters => exact hcells (Console.same_deleteCharacters _)
  | eraseCharacters => exact hcells (Console.same_eraseCharacters _)
  | insertLines => exact hcells (Console.same_scrollLinesBy _)
  | deleteLines => exact hcells (Console.same_scrollLinesBy _)
  | eraseInDisplay => exact hcells (Console.same_eraseInDisplay _)
  | eraseInLine => exact hcells (Console.same_eraseInLine _)
  | setScrollingRegion => exact h.onConsole (Console.Same.scrollingRegion · _ _)
  | carriageReturn => exact h.moveTo _
  | cursorUp => exact h.moveTo _
  | cursorDown => exact h.moveTo _
  | cursorForward => exact h.moveTo _
  | cursorBackward => exact h.moveTo _
  | cursorNextLine => exact h.moveTo _
  | cursorPrevLine => exact h.moveTo _
  | _ => exact vtMsgApplyState_same h _ _ _ _

/-! ## The viewport in the buffer -/

/-- The viewport is inside the buffer. -/
structure Framed (s : VtConsole) : Prop where
  inside : s.sb.viewport.Inside s.sb.size
  width : s.sb.size.x ≤ 0x7FFF
  height : s.sb.size.y ≤ 0x7FFF

theorem Framed.of_frame {sb : ScreenBuffer} (h : s.Framed) (hf : SameFrame s.sb sb) (hs : s'.sb = sb) : s'.Framed := by
  subst hs
  exact ⟨by rw [hf.viewport, hf.size]; exact h.inside, by rw [hf.size]; exact h.width, by rw [hf.size]; exact h.height⟩

theorem Framed.resizeWindow (h : s.Framed) {rows cols : Int} (hrows : IsShort rows) (hcols : IsShort cols)
    (hr : s.resizeWindow rows cols = some s') : s'.Framed := by
  unfold VtConsole.resizeWindow at hr
  split_ifs at hr with hpos
  · obtain ⟨stops, -, rfl⟩ := Option.map_eq_some_iff.mp hr
    have hy : 1 ≤ rows ∧ rows ≤ 0x7FFF := ⟨hpos.1, by have := hrows.2; omega⟩
    have hx : 1 ≤ cols ∧ cols ≤ 0x7FFF := ⟨hpos.2, by have := hcols.2; omega⟩
    obtain ⟨hsize, hview⟩ := ScreenBuffer.resetTo_spec s.sb (show 1 ≤ (Coord.mk cols rows).x ∧ _ from hx) hy
    have hreset : ({ s with sb := s.sb.resetTo ⟨cols, rows⟩ } : VtConsole).Framed := by
      refine ⟨?_, ?_, ?_⟩
      · rw [hsize, hview]
        exact ConsoleViewport.ofBuffer_inside hx hy
      · rw [hsize]
        exact hx.2
      · rw [hsize]
        exact hy.2
    exact hreset.of_frame (.refl _) rfl
  · exact Option.some_inj.mp hr ▸ h

theorem Framed.onConsole {f : Console → Console} (h : s.Framed) (hf : SameFrame s.sb (f s.toConsole).sb) :
    (s.onConsole f).Framed := h.of_frame hf rfl

theorem sb_restoreCursor (s : VtConsole) : s.restoreCursor.sb = s.sb := by
  unfold restoreCursor
  split <;> rfl

theorem sb_useMainBuffer (s : VtConsole) : s.useMainBuffer.sb = s.sb := by
  unfold useMainBuffer
  split <;> rfl

theorem isShort_resizeValue (payload : VtPayload) : IsShort payload.resizeValue.1 ∧ IsShort payload.resizeValue.2 := by
  have h0 : IsShort 0 := by decide
  cases payload with
  | resize rows cols => exact ⟨isShort_i16 rows, isShort_i16 cols⟩
  | _ => exact ⟨h0, h0⟩

theorem Framed.applyMessage (h : s.Framed) (id : VtMessageId) (payload : VtPayload) : (s.applyMessage id payload).Framed := by
  have hcells {f : Console → Console} (hf : ∀ c, Console.Same c (f c)) : (s.onConsole f).Framed :=
    h.onConsole (hf s.toConsole).sb
  have hsame {s' : VtConsole} (hs : s'.sb = s.sb) : s'.Framed := h.of_frame (.refl s.sb) hs
  unfold VtConsole.applyMessage
  dsimp only
  cases id with
  | reverseIndex => exact h.onConsole (Console.frame_reverseIndex _)
  | scrollUp => exact hcells (Console.same_scrollRegionBy _)
  | scrollDown => exact hcells (Console.same_scrollRegionBy _)
  | insertCharacters => exact hcells (Console.same_insertCharacters _)
  | deleteCharacters => exact hcells (Console.same_deleteCharacters _)
  | eraseCharacters => exact hcells (Console.same_eraseCharacters _)
  | insertLines => exact hcells (Console.same_scrollLinesBy _)
  | deleteLines => exact hcells (Console.same_scrollLinesBy _)
  | eraseInDisplay => exact hcells (Console.same_eraseInDisplay _)
  | eraseInLine => exact hcells (Console.same_eraseInLine _)
  | setScrollingRegion => exact h.onConsole (Console.frame_scrollingRegion ..)
  | restoreCursor => exact hsame (sb_restoreCursor s)
  | ansiRestoreCursor => exact hsame (sb_restoreCursor s)
  | useMainBuffer => exact hsame (sb_useMainBuffer s)
  | _ => exact hsame rfl
end VtConsole

end Corehost
