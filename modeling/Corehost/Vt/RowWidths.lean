import Corehost.Vt.CursorOnly

/-!
# The rows under messages

No message of the output changes how many rows the buffer has or how wide they
are, other than to those of its new size.

* `ScreenBuffer.Keeps`: the frame is left, and rows that agree with the size
  still do;
* `Console.keeps_…`: what the functions for single messages leave;
* `VtConsole.keepsWindow_message`: every message other than `resize_window`.
-/

namespace Corehost

open Lib ScreenBufferRow

namespace ScreenBuffer

variable {s t u : ScreenBuffer}

/-- The same size and viewport, and rows that agree with the size if they did. -/
structure Keeps (s t : ScreenBuffer) : Prop where
  frame : SameFrame s t
  sized : s.Sized → s.viewport.Inside s.size → t.Sized

theorem Keeps.refl (s : ScreenBuffer) : Keeps s s := ⟨.refl s, fun h _ => h⟩

theorem Keeps.trans (h : Keeps s t) (h' : Keeps t u) : Keeps s u := by
  refine ⟨h.frame.trans h'.frame, fun hs hin => h'.sized (h.sized hs hin) ?_⟩
  rw [h.frame.viewport, h.frame.size]
  exact hin

theorem Keeps.inside (h : Keeps s t) (hin : s.viewport.Inside s.size) : t.viewport.Inside t.size := by
  rw [h.frame.viewport, h.frame.size]
  exact hin

theorem keeps_foldl {α : Type} {f : ScreenBuffer → α → ScreenBuffer} (hf : ∀ s a, Keeps s (f s a)) (s : ScreenBuffer)
    (as : List α) : Keeps s (as.foldl f s) :=
  List.foldlRecOn (motive := Keeps s) as f (.refl s) fun t h a _ => h.trans (hf t a)

theorem keeps_scroll (s : ScreenBuffer) (sr clip : SmallRect) (useClip : Bool) (dest : Coord) (cp : Char32) (attr : UInt16) :
    Keeps s (s.scroll sr clip useClip dest cp attr) :=
  ⟨sameFrame_scroll .., fun h hin => ((Sim.plain h hin).scroll sr clip useClip dest cp attr).sized⟩

theorem keeps_shiftRows (s : ScreenBuffer) (dy : Int) (attr : UInt16) : Keeps s (s.shiftRows dy attr) := by
  unfold shiftRows
  split
  · exact .refl s
  · exact keeps_scroll ..

theorem keeps_writeTextRow (s : ScreenBuffer) (cw : Char32 → Int) (cursor : Coord) (text : List Char32) (attr : UInt16) :
    Keeps s (s.writeTextRow cw cursor text attr).2.2 :=
  ⟨sameFrame_writeTextRow .., fun h hin => ((Sim.plain h hin).writeTextRow cw cursor text attr).sized⟩

theorem keeps_clearCell (s : ScreenBuffer) (c : Coord) (attr : UInt16) : Keeps s (s.clearCell c attr) :=
  ⟨sameFrame_clearCell .., fun h hin => (sim_apply (Sim.plain h hin) (.clearCell c attr)).sized⟩

theorem keeps_clearTerminalLineRange (s : ScreenBuffer) (y left right : Int) (attr : UInt16) :
    Keeps s (Console.clearTerminalLineRange s y left right attr) := keeps_foldl (fun _ _ => keeps_clearCell ..) s _

theorem keeps_clearViewportRect (s : ScreenBuffer) (attr : UInt16) (rect : SmallRect) :
    Keeps s (Console.clearViewportRect s attr rect) := by
  unfold Console.clearViewportRect
  dsimp only
  split
  · exact .refl s
  · exact keeps_foldl (fun _ _ => keeps_clearTerminalLineRange ..) s _

/-- Columns of a row in the viewport are copied inside it. -/
theorem keeps_copyRow (s : ScreenBuffer) {y : Int} (hy : y ≤ s.viewport.rect.bottom) (source dest count : Nat) :
    Keeps s (s.modifyRow y fun r => r.copyFrom (s.row y) source dest count) := by
  refine ⟨sameFrame_modifyRow .., fun h hin => h.modifyRow y fun r hr => ?_⟩
  have hlt : y < s.size.y := Int.lt_of_le_of_lt hy hin.bottom
  have hrow : (s.row y).ShowsSome s.size.x.toNat := h.rows _ (h.row_eq hlt).2
  exact (acts_copyFrom hrow source dest count).showsSome hr

end ScreenBuffer

open ScreenBuffer (Keeps)

namespace Console

variable {cw : Char32 → Int} (c : Console)

theorem keeps_lineFeed : Keeps c.sb c.applyTerminalLineFeed.sb := by
  unfold applyTerminalLineFeed
  dsimp only
  split_ifs
  · exact ScreenBuffer.keeps_scroll ..
  · exact .refl c.sb
  · exact ScreenBuffer.keeps_scroll ..
  · exact .refl c.sb

theorem keeps_reverseIndex : Keeps c.sb c.applyTerminalReverseIndex.sb := by
  unfold applyTerminalReverseIndex
  dsimp only
  split
  · exact ScreenBuffer.keeps_scroll ..
  · exact .refl c.sb

theorem keeps_scrollRegionBy (dy : Int) : Keeps c.sb (c.scrollRegionBy dy).sb := ScreenBuffer.keeps_scroll ..

theorem keeps_scrollLinesBy (dy : Int) : Keeps c.sb (c.scrollLinesBy dy).sb := by
  unfold scrollLinesBy
  dsimp only
  split
  · exact ScreenBuffer.keeps_scroll ..
  · exact .refl c.sb

theorem keeps_insertCharacters (count : Int) : Keeps c.sb (c.applyTerminalInsertCharacters count).sb := by
  unfold applyTerminalInsertCharacters
  dsimp only
  split_ifs with hy
  · exact .refl c.sb
  · exact (ScreenBuffer.keeps_copyRow c.sb (by omega) ..).trans (ScreenBuffer.keeps_clearTerminalLineRange ..)
  · exact ScreenBuffer.keeps_clearTerminalLineRange ..

theorem keeps_deleteCharacters (count : Int) : Keeps c.sb (c.applyTerminalDeleteCharacters count).sb := by
  unfold applyTerminalDeleteCharacters
  dsimp only
  split_ifs with hy
  · exact .refl c.sb
  · exact (ScreenBuffer.keeps_copyRow c.sb (by omega) ..).trans (ScreenBuffer.keeps_clearTerminalLineRange ..)
  · exact ScreenBuffer.keeps_clearTerminalLineRange ..

theorem keeps_eraseCharacters (count : Int) : Keeps c.sb (c.applyTerminalEraseCharacters count).sb := by
  unfold applyTerminalEraseCharacters
  dsimp only
  split
  · exact .refl c.sb
  · exact ScreenBuffer.keeps_clearTerminalLineRange ..

theorem keeps_eraseInDisplay (mode : Int) : Keeps c.sb (c.applyTerminalEraseInDisplay mode).sb := by
  unfold applyTerminalEraseInDisplay
  dsimp only
  split_ifs
  · exact (ScreenBuffer.keeps_clearViewportRect ..).trans (ScreenBuffer.keeps_clearViewportRect ..)
  · exact (ScreenBuffer.keeps_clearViewportRect ..).trans (ScreenBuffer.keeps_clearViewportRect ..)
  · exact ScreenBuffer.keeps_clearViewportRect ..
  · exact .refl c.sb

theorem keeps_eraseInLine (mode : Int) : Keeps c.sb (c.applyTerminalEraseInLine mode).sb := by
  unfold applyTerminalEraseInLine
  dsimp only
  split_ifs
  · exact .refl c.sb
  · exact ScreenBuffer.keeps_clearViewportRect ..
  · exact ScreenBuffer.keeps_clearViewportRect ..
  · exact ScreenBuffer.keeps_clearViewportRect ..
  · exact .refl c.sb

theorem keeps_scrollingRegion (top bottom : Int) : Keeps c.sb (c.applyTerminalScrollingRegion top bottom).sb := by
  unfold applyTerminalScrollingRegion
  dsimp only
  split_ifs <;> exact .refl c.sb

/-! ## Text -/

theorem keeps_startText (text : List Char32) : Keeps c.sb (c.startText text).sb := by
  unfold startText
  dsimp only
  split_ifs
  · exact .refl c.sb
  · exact keeps_lineFeed (c.clampCursor.setWrap false)
  · exact .refl c.sb

theorem keeps_textLoop (cw : Char32 → Int) (view : SmallRect) : ∀ (n : Nat) (text : List Char32) (c : Console) {r},
    applyTerminalTextLoop cw view n text c = some r → Keeps c.sb r.2.sb
  | _, [], c, r, hr => by
    rw [applyTerminalTextLoop] at hr
    exact Option.some_inj.mp hr ▸ .refl _
  | 0, _ :: _, c, r, hr => by
    rw [applyTerminalTextLoop] at hr
    cases hr
  | n + 1, ch :: rest, c, r, hr => by
    have hrow := ScreenBuffer.keeps_writeTextRow c.sb cw c.state.position (ch :: rest) c.state.defaultAttributes
    rw [applyTerminalTextLoop] at hr
    generalize c.sb.writeTextRow cw c.state.position (ch :: rest) c.state.defaultAttributes = w at hr hrow
    obtain ⟨result, position, sb⟩ := w
    dsimp only at hr hrow
    split_ifs at hr
    · exact Option.some_inj.mp hr ▸ hrow
    · have hfeed := keeps_lineFeed ({ c with sb := sb }.moveTo position)
      exact (hrow.trans hfeed).trans (keeps_textLoop cw view n _ _ hr)
    · exact Option.some_inj.mp hr ▸ hrow
    · exact hrow.trans (keeps_textLoop cw view n _ _ hr)

end Console

/-! ## Messages -/

namespace VtConsole

/-- The rows are kept, and the size that `console_state` has. -/
structure KeepsWindow (s s' : VtConsole) : Prop where
  sb : Keeps s.sb s'.sb
  size : s'.screenBufferSize = s.screenBufferSize

variable {cw : Char32 → Int} {s s' r : VtConsole}

theorem KeepsWindow.trans (h : KeepsWindow s s') (h' : KeepsWindow s' r) : KeepsWindow s r :=
  ⟨h.sb.trans h'.sb, h'.size.trans h.size⟩

theorem keepsWindow_restoreCursor (s : VtConsole) : KeepsWindow s s.restoreCursor := by
  unfold restoreCursor
  split <;> exact ⟨.refl _, rfl⟩

theorem keepsWindow_useMainBuffer (s : VtConsole) : KeepsWindow s s.useMainBuffer := by
  unfold useMainBuffer
  split <;> exact ⟨.refl _, rfl⟩

theorem keepsWindow_applyMessage (s : VtConsole) (id : VtMessageId) (payload : VtPayload) :
    KeepsWindow s (s.applyMessage id payload) := by
  unfold VtConsole.applyMessage
  dsimp only
  cases id with
  | reverseIndex => exact ⟨Console.keeps_reverseIndex _, rfl⟩
  | scrollUp => exact ⟨Console.keeps_scrollRegionBy .., rfl⟩
  | scrollDown => exact ⟨Console.keeps_scrollRegionBy .., rfl⟩
  | insertCharacters => exact ⟨Console.keeps_insertCharacters .., rfl⟩
  | deleteCharacters => exact ⟨Console.keeps_deleteCharacters .., rfl⟩
  | eraseCharacters => exact ⟨Console.keeps_eraseCharacters .., rfl⟩
  | insertLines => exact ⟨Console.keeps_scrollLinesBy .., rfl⟩
  | deleteLines => exact ⟨Console.keeps_scrollLinesBy .., rfl⟩
  | eraseInDisplay => exact ⟨Console.keeps_eraseInDisplay .., rfl⟩
  | eraseInLine => exact ⟨Console.keeps_eraseInLine .., rfl⟩
  | setScrollingRegion => exact ⟨Console.keeps_scrollingRegion .., rfl⟩
  | restoreCursor => exact keepsWindow_restoreCursor s
  | ansiRestoreCursor => exact keepsWindow_restoreCursor s
  | useMainBuffer => exact keepsWindow_useMainBuffer s
  | _ => exact ⟨.refl _, rfl⟩

theorem keepsWindow_applyText {sync : Bool} {text : List Char32} (hr : s.applyText cw sync text = some r) :
    KeepsWindow s r := by
  unfold applyText at hr
  split_ifs at hr
  · obtain ⟨w, hw, rfl⟩ := Option.map_eq_some_iff.mp hr
    exact ⟨(Console.keeps_startText _ _).trans (Console.keeps_textLoop cw _ _ _ _ hw), rfl⟩
  · obtain rfl := Option.some_inj.mp hr
    refine ⟨?_, rfl⟩
    change Keeps s.sb (s.toConsole.applyTerminalTextCursorOnly cw text).sb
    rw [Console.sb_textCursorOnly]
    exact .refl _

theorem keepsWindow_applyLineFeed (sync : Bool) (s : VtConsole) : KeepsWindow s (s.applyLineFeed sync) := by
  refine ⟨?_, rfl⟩
  cases sync with
  | true => exact Console.keeps_lineFeed _
  | false => exact .refl _

/-- `vt_msg_apply_terminal_state` up to the message itself. -/
theorem keepsWindow_setWrap (s : VtConsole) (id : VtMessageId) :
    KeepsWindow s (if endsPendingWrap id then s.onConsole (·.setWrap false) else s) := by
  split <;> exact ⟨.refl _, rfl⟩

theorem keepsWindow_message {sync : Bool} {id : VtMessageId} (hid : id ≠ .resizeWindow) {payload : VtPayload}
    (hr : s.vtMsgApplyTerminalState cw sync id payload = some r) : KeepsWindow s r := by
  have hwrap := keepsWindow_setWrap s id
  unfold VtConsole.vtMsgApplyTerminalState at hr
  dsimp only at hr
  generalize (if endsPendingWrap id then s.onConsole (·.setWrap false) else s) = t at *
  cases id with
  | text => exact hwrap.trans (keepsWindow_applyText hr)
  | lineFeed => exact Option.some_inj.mp hr ▸ hwrap.trans (keepsWindow_applyLineFeed sync t)
  | resizeWindow => exact absurd rfl hid
  | _ => exact Option.some_inj.mp hr ▸ hwrap.trans (keepsWindow_applyMessage t _ payload)

end VtConsole

end Corehost
