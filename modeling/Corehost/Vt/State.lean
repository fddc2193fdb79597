import Corehost.Parser.Feed
import Corehost.Screen.Columns
import Corehost.Screen.TerminalResize
import Corehost.Vt.Send
import Corehost.Vt.Sgr

/-!
# Messages on the console state

The model of what a parsed message does to `console_state` and to the screen
buffer: `vt_msg_apply_state` (`vt_msg_dispatch.hpp`) and
`vt_msg_apply_terminal_state` (`api_handlers.hpp`), with the functions for the
single messages in the order of the source.

The model of the text and of the line feed is in `Screen.Output`, that of
inserted and deleted characters in `Screen.Columns`.
-/

namespace Corehost

open Lib

/-! ## The state -/

/-- `console_state::saved_cursor`. -/
structure SavedCursor where
  position : Coord := {}
  attributes : UInt16 := 0x07
  hasState : Bool := false
deriving DecidableEq, Repr

/-- A console with the other fields of `console_state` that output changes.
`visible` belongs to its cursor. -/
structure VtConsole extends Console where
  visible : Bool := true
  screenBufferSize : Coord := defaultConsoleSize
  maxWindowSize : Coord := defaultConsoleSize
  title : List Char32 := []
  decscCursor : SavedCursor := {}
  altScreenCursor : SavedCursor := {}
  resizedInAltScreen : Bool := false
  tabStops : List Bool := []
  decLineDrawingMode : Bool := false
deriving DecidableEq, Repr

/-! ## Tab stops -/

/-- The loop of `init_tab_stops`, at most `n` times. The counter `i` is a
`SHORT`, and `none` is a write in front of the table. -/
def initTabStopsLoop (width : Int) : Nat → Int → List Bool → Option (List Bool)
  | 0, _, _ => none
  | n + 1, i, stops =>
    if i < width then
      if i < 0 then none else initTabStopsLoop width n (i16 (i + 8)) (stops.set i.toNat true)
    else some stops

/-- `init_tab_stops`, for a buffer of `width` columns. In a wide one the counter
wraps: the loop then writes in front of the table, and does not end. -/
def initTabStops (width : Int) : Option (List Bool) :=
  let width := max width defaultConsoleSize.x
  initTabStopsLoop width (width.toNat + 1) 0 (List.replicate width.toNat false)

/-- `ensure_tab_capacity`. -/
def ensureTabCapacity (stops : List Bool) (col : Int) : List Bool :=
  if col < 0 ∨ col < stops.length then stops
  else stops ++ (List.range' stops.length (col.toNat + 1 - stops.length)).map fun i => i % 8 == 0

def setTabStop (stops : List Bool) (col : Int) : List Bool :=
  if col ≥ 0 then (ensureTabCapacity stops col).set col.toNat true else stops

def clearTabStop (stops : List Bool) (col : Int) : List Bool :=
  if col ≥ 0 ∧ col < stops.length then stops.set col.toNat false else stops

def clearAllTabStops (stops : List Bool) : List Bool := stops.map fun _ => false

def nextTabStop (stops : List Bool) (col : Int) : Int :=
  if col + 1 < 0 then col
  else
    let first := (col + 1).toNat
    match (List.range' first (stops.length - first)).find? fun c => stops.getD c false with
    | some c => i16 c
    | none => col

def prevTabStop (stops : List Bool) (col : Int) : Int :=
  match (List.range col.toNat).reverse.find? fun c => stops.getD c false with
  | some c => i16 c
  | none => 0

/-- `payload.resize`: the rows and the columns, each a `short`. -/
def VtPayload.resizeValue : VtPayload → Int × Int
  | .resize rows cols => (i16 rows, i16 cols)
  | _ => (0, 0)

/-! ## `vt_msg_apply_state` -/

/-- A coordinate that is put into `0, …, n - 1`. -/
def limited (v n : Int) : Int :=
  let v := if v < 0 then 0 else v
  if v ≥ n then i16 (n - 1) else v

namespace VtConsole

/-- The cursor at another place. -/
def moveTo (s : VtConsole) (position : Coord) : VtConsole := { s with toConsole := s.toConsole.moveTo position }

def setAttributes (s : VtConsole) (defaultAttributes : UInt16) : VtConsole :=
  { s with state := { s.state with defaultAttributes } }

def saveCursor (s : VtConsole) : VtConsole :=
  { s with decscCursor := ⟨s.state.position, s.state.defaultAttributes, true⟩ }

def restoreCursor (s : VtConsole) : VtConsole :=
  if s.decscCursor.hasState then (s.moveTo s.decscCursor.position).setAttributes s.decscCursor.attributes else s

/-- `resize_window` up to `init_tab_stops`: the console has its new size, and the
rows still have the old one. -/
def startResize (s : VtConsole) (size : Coord) : VtConsole :=
  { s with
    screenBufferSize := size
    maxWindowSize := size
    tabStops := clearAllTabStops s.tabStops
    state := { s.state with scrollRegionTop := 1, scrollRegionBottom := 0 }
    sb := { s.sb with viewport := .ofBuffer size } }

/-- `resize_window` behind `init_tab_stops`. -/
def finishResize (s : VtConsole) (size : Coord) (tabStops : List Bool) : VtConsole :=
  let position := s.state.position
  { s with
    tabStops := tabStops
    state := { s.state with
      position := ⟨if position.x ≥ size.x then i16 (size.x - 1) else position.x,
                   if position.y ≥ size.y then i16 (size.y - 1) else position.y⟩ }
    sb := s.sb.resize size }

/-- `resize_window`. It does not end when `init_tab_stops` does not. -/
def resizeWindow (s : VtConsole) (rows cols : Int) : Option VtConsole :=
  if rows > 0 ∧ cols > 0 then (initTabStops cols).map ((s.startResize ⟨cols, rows⟩).finishResize ⟨cols, rows⟩) else some s

/-- `use_alternate_buffer`: the cursor is kept, the buffers are not switched here. -/
def useAlternateBuffer (s : VtConsole) : VtConsole :=
  { s with
    altScreenCursor := { s.altScreenCursor with position := s.state.position, hasState := true }
    resizedInAltScreen := false }

/-- `use_main_buffer`. -/
def useMainBuffer (s : VtConsole) : VtConsole :=
  if s.altScreenCursor.hasState then
    { s.moveTo s.altScreenCursor.position with altScreenCursor := { s.altScreenCursor with hasState := false } }
  else s

/-- `vt_msg_apply_state`, for the messages that `vt_msg_apply_terminal_state`
leaves to it, other than `resize_window`. `row` and `col` are those of the payload. -/
def vtMsgApplyState (id : VtMessageId) (row col : Int) (payload : VtPayload) (s : VtConsole) : VtConsole :=
  let size := s.screenBufferSize
  let position := s.state.position
  match id with
  | .setWindowTitle => { s with title := payload.titleValue }
  | .cursorVertAbsolute => s.moveTo ⟨position.x, limited (i16 (row - 1)) size.y⟩
  | .cursorHorizAbsolute => s.moveTo ⟨limited (i16 (col - 1)) size.x, position.y⟩
  | .cursorPosition => s.moveTo ⟨limited (i16 (col - 1)) size.x, limited (i16 (row - 1)) size.y⟩
  | .saveCursor | .ansiSaveCursor => s.saveCursor
  | .restoreCursor | .ansiRestoreCursor => s.restoreCursor
  | .cursorShow => { s with visible := true }
  | .cursorHide => { s with visible := false }
  | .designateCharsetLineDrawing => { s with decLineDrawingMode := true }
  | .designateCharsetAscii => { s with decLineDrawingMode := false }
  | .useAlternateBuffer => s.useAlternateBuffer
  | .useMainBuffer => s.useMainBuffer
  | .sgr => s.setAttributes (applySgrToAttributes payload.sgrValue s.state.defaultAttributes)
  | _ => s

end VtConsole

/-! ## The functions for single messages -/

namespace Console

/-- `clear_viewport_rect`. -/
def clearViewportRect (sb : ScreenBuffer) (attr : UInt16) (rect : SmallRect) : ScreenBuffer :=
  let view := sb.viewport.rect
  let r : SmallRect :=
    ⟨max rect.left view.left, max rect.top view.top, min rect.right view.right, min rect.bottom view.bottom⟩
  if r.left > r.right ∨ r.top > r.bottom then sb
  else (List.range (r.bottom - r.top + 1).toNat).foldl
    (fun sb (k : Nat) => clearTerminalLineRange sb (r.top + k) r.left r.right attr) sb

def applyTerminalEraseInDisplay (c : Console) (mode : Int) : Console :=
  let view := c.sb.viewport.rect
  let attr := c.state.defaultAttributes
  let x := clamp c.state.position.x view.left view.right
  let y := clamp c.state.position.y view.top view.bottom
  if mode = 0 then
    let sb := clearViewportRect c.sb attr ⟨x, y, view.right, y⟩
    { c with sb := clearViewportRect sb attr ⟨view.left, i16 (y + 1), view.right, view.bottom⟩ }
  else if mode = 1 then
    let sb := clearViewportRect c.sb attr ⟨view.left, view.top, view.right, i16 (y - 1)⟩
    { c with sb := clearViewportRect sb attr ⟨view.left, y, x, y⟩ }
  else if mode = 2 ∨ mode = 3 then { c with sb := clearViewportRect c.sb attr view }
  else c

def applyTerminalEraseInLine (c : Console) (mode : Int) : Console :=
  let view := c.sb.viewport.rect
  let attr := c.state.defaultAttributes
  let y := c.state.position.y
  if y < view.top ∨ y > view.bottom then c
  else
    let x := clamp c.state.position.x view.left view.right
    if mode = 0 then { c with sb := clearViewportRect c.sb attr ⟨x, y, view.right, y⟩ }
    else if mode = 1 then { c with sb := clearViewportRect c.sb attr ⟨view.left, y, x, y⟩ }
    else if mode = 2 then { c with sb := clearViewportRect c.sb attr ⟨view.left, y, view.right, y⟩ }
    else c

/-- `count` is `msg.payload.count.value`, here and below. -/
def applyTerminalEraseCharacters (c : Console) (count : Int) : Console :=
  let view := c.sb.viewport.rect
  let y := c.state.position.y
  if y < view.top ∨ y > view.bottom then c
  else
    let x := clamp c.state.position.x view.left view.right
    let count := min (i16 (view.right - x + 1)) (i16 (max 1 count))
    { c with sb := clearTerminalLineRange c.sb y x (i16 (x + count - 1)) c.state.defaultAttributes }

def applyTerminalReverseIndex (c : Console) : Console :=
  let view := c.sb.viewport.rect
  let region := c.state.scrollRegion view
  let c := c.clampCursor
  if c.state.position.y = region.top then
    { c with sb := c.sb.scroll region region true ⟨region.left, i16 (region.top + 1)⟩ 0x20 c.state.defaultAttributes }
  else c.moveTo ⟨c.state.position.x, i16 (c.state.position.y - 1)⟩

/-- The scrolling region, by `dy` rows. -/
def scrollRegionBy (c : Console) (dy : Int) : Console :=
  let region := c.state.scrollRegion c.sb.viewport.rect
  { c with sb := c.sb.scroll region region true ⟨region.left, i16 (region.top + dy)⟩ 0x20 c.state.defaultAttributes }

/-- The rows of the scrolling region from the cursor on, by `dy` rows. -/
def scrollLinesBy (c : Console) (dy : Int) : Console :=
  let region := c.state.scrollRegion c.sb.viewport.rect
  let y := c.state.position.y
  if y ≥ region.top ∧ y ≤ region.bottom then
    let lines : SmallRect := ⟨region.left, y, region.right, region.bottom⟩
    { c with sb := c.sb.scroll lines lines true ⟨region.left, i16 (y + dy)⟩ 0x20 c.state.defaultAttributes }
  else c

def applyTerminalScrollingRegion (c : Console) (top bottom : Int) : Console :=
  let view := c.sb.viewport.rect
  let height := i16 (view.bottom - view.top + 1)
  let top := clamp top 1 height
  let bottom := if bottom ≤ 0 then height else clamp bottom 1 height
  let c :=
    if top < bottom then { c with state := { c.state with
      scrollRegionTop := top, scrollRegionBottom := if bottom = height then 0 else bottom } }
    else { c with state := { c.state with scrollRegionTop := 1, scrollRegionBottom := 0 } }
  c.moveTo ⟨view.left, view.top⟩

/-! ## Without the cells -/

def applyTerminalLineFeedCursorOnly (c : Console) : Console :=
  let view := c.sb.viewport.rect
  let y := c.state.position.y
  c.moveTo ⟨view.left, if y ≥ view.bottom then view.bottom else i16 (y + 1)⟩

/-- The loop of `apply_terminal_text_cursor_only`, at most `n` times. -/
def cursorOnlyLoop (cw : Char32 → Int) (view : SmallRect) : Nat → List Char32 → Console → Console
  | 0, _, c => c
  | _, [], c => c
  | n + 1, ch :: rest, c =>
    let widths := ScreenBuffer.measureRow cw c.state.position.x view.right 0 (ch :: rest)
    if widths.length = 0 then c
    else
      let x := i16 (c.state.position.x + u16 widths.sum)
      let c := c.moveTo ⟨x, c.state.position.y⟩
      let remaining := (ch :: rest).drop widths.length
      if remaining ≠ [] then cursorOnlyLoop cw view n remaining c.applyTerminalLineFeedCursorOnly
      else if x > view.right then (c.moveTo ⟨view.right, c.state.position.y⟩).setWrap true
      else c

/-- `apply_terminal_text_cursor_only`. Every turn of the loop consumes a character. -/
def applyTerminalTextCursorOnly (cw : Char32 → Int) (text : List Char32) (c : Console) : Console :=
  let view := c.sb.viewport.rect
  let c := c.clampCursor
  let c :=
    if text = [] then c
    else if c.state.pendingWrap ∧ c.state.position.x = view.right then (c.setWrap false).applyTerminalLineFeedCursorOnly
    else c.setWrap false
  cursorOnlyLoop cw view text.length text c

end Console

/-! ## `vt_msg_apply_terminal_state` -/

def endsPendingWrap : VtMessageId → Bool
  | .carriageReturn | .lineFeed | .reverseIndex | .cursorUp | .cursorDown | .cursorForward | .cursorBackward
  | .cursorNextLine | .cursorPrevLine | .cursorForwardTab | .cursorBackwardTab | .cursorVertAbsolute
  | .cursorHorizAbsolute | .cursorPosition | .restoreCursor | .ansiRestoreCursor | .scrollUp | .scrollDown
  | .insertCharacters | .deleteCharacters | .eraseCharacters | .insertLines | .deleteLines | .eraseInDisplay
  | .eraseInLine | .setScrollingRegion | .useAlternateBuffer | .useMainBuffer | .setColumns132 | .setColumns80
  | .resizeWindow | .softReset | .charDel => true
  | _ => false

namespace VtConsole

def onConsole (s : VtConsole) (f : Console → Console) : VtConsole := { s with toConsole := f s.toConsole }

/-- `terminal_relative_column`. -/
def relativeColumn (s : VtConsole) : Int :=
  let view := s.sb.viewport.rect
  clamp (i16 (s.state.position.x - view.left)) 0 (i16 (view.right - view.left))

/-- `apply_terminal_forward_tab` and `apply_terminal_backward_tab`: `stop` is
`next_tab_stop` or `prev_tab_stop`. -/
def applyTerminalTab (s : VtConsole) (stop : List Bool → Int → Int) (count : Int) : VtConsole :=
  let view := s.sb.viewport.rect
  let x := (stop s.tabStops)^[(max 1 count).toNat] s.relativeColumn
  s.moveTo ⟨clamp (i16 (view.left + x)) view.left view.right, s.state.position.y⟩

/-- `vt_msg_apply_terminal_state` for all messages other than text, the line feed
and `resize_window`. -/
def applyMessage (id : VtMessageId) (payload : VtPayload) (s : VtConsole) : VtConsole :=
  let view := s.sb.viewport.rect
  let origin := s.sb.viewport.origin
  let count := i16 (max 1 payload.countValue)
  let x := s.state.position.x
  let y := s.state.position.y
  match id with
  | .carriageReturn => s.moveTo ⟨view.left, y⟩
  | .reverseIndex => s.onConsole .applyTerminalReverseIndex
  | .cursorUp => s.moveTo ⟨x, max view.top (i16 (y - count))⟩
  | .cursorDown => s.moveTo ⟨x, min view.bottom (i16 (y + count))⟩
  | .cursorForward => s.moveTo ⟨min view.right (i16 (x + count)), y⟩
  | .cursorBackward => s.moveTo ⟨max view.left (i16 (x - count)), y⟩
  | .cursorNextLine => s.moveTo ⟨view.left, min view.bottom (i16 (y + count))⟩
  | .cursorPrevLine => s.moveTo ⟨view.left, max view.top (i16 (y - count))⟩
  | .cursorForwardTab => s.applyTerminalTab nextTabStop payload.countValue
  | .cursorBackwardTab => s.applyTerminalTab prevTabStop payload.countValue
  | .horizontalTabSet => { s with tabStops := setTabStop s.tabStops s.relativeColumn }
  | .tabClearCurrent => { s with tabStops := clearTabStop s.tabStops s.relativeColumn }
  | .tabClearAll => { s with tabStops := clearAllTabStops s.tabStops }
  | .scrollUp => s.onConsole (·.scrollRegionBy (-count))
  | .scrollDown => s.onConsole (·.scrollRegionBy count)
  | .insertCharacters => s.onConsole (·.applyTerminalInsertCharacters payload.countValue)
  | .deleteCharacters => s.onConsole (·.applyTerminalDeleteCharacters payload.countValue)
  | .eraseCharacters => s.onConsole (·.applyTerminalEraseCharacters payload.countValue)
  | .insertLines => s.onConsole (·.scrollLinesBy count)
  | .deleteLines => s.onConsole (·.scrollLinesBy (-count))
  | .eraseInDisplay => s.onConsole (·.applyTerminalEraseInDisplay payload.eraseModeValue)
  | .eraseInLine => s.onConsole (·.applyTerminalEraseInLine payload.eraseModeValue)
  | .setScrollingRegion =>
    s.onConsole (·.applyTerminalScrollingRegion payload.scrollRegionValue.1 payload.scrollRegionValue.2)
  | id => s.vtMsgApplyState id (i16 (payload.rowValue + origin.y)) (i16 (payload.colValue + origin.x)) payload

/-- The text of a message. Without `sync` the cells are left alone. The bound
for the loop is enough for every text that it ends on. -/
def applyText (cw : Char32 → Int) (sync : Bool) (text : List Char32) (s : VtConsole) : Option VtConsole :=
  if sync then
    (s.toConsole.applyTerminalText cw (2 * text.length + 1) text).map fun r => { s with toConsole := r.2 }
  else some (s.onConsole (·.applyTerminalTextCursorOnly cw text))

def applyLineFeed (sync : Bool) (s : VtConsole) : VtConsole :=
  s.onConsole fun c => if sync then c.applyTerminalLineFeed else c.applyTerminalLineFeedCursorOnly

/-- `vt_msg_apply_terminal_state`. -/
def vtMsgApplyTerminalState (cw : Char32 → Int) (sync : Bool) (id : VtMessageId) (payload : VtPayload) (s : VtConsole) :
    Option VtConsole :=
  let s := if endsPendingWrap id then s.onConsole (·.setWrap false) else s
  match id with
  | .text => s.applyText cw sync payload.textValue
  | .lineFeed => some (s.applyLineFeed sync)
  | .resizeWindow => s.resizeWindow payload.resizeValue.1 payload.resizeValue.2
  | _ => some (s.applyMessage id payload)

end VtConsole

/-! ## The messages of a write -/

/-- `is_inline_image_sequence`. -/
def isInlineImageSequence (raw : List Char32) : Bool :=
  (chars ['\x1b', ']', '1', '3', '3', '7', ';', 'F', 'i', 'l', 'e', '=']).isPrefixOf raw ||
    (chars ['\x1b', ']', '1', '3', '3', '7', ';', 'F', 'i', 'l', 'e', 'E', 'n', 'd']).isPrefixOf raw ||
    (chars ['\x1b', '_', 'G']).isPrefixOf raw ||
    ((chars ['\x1b', 'P']).isPrefixOf raw &&
      ((raw.drop 2).dropWhile fun ch => isDigit ch || ch == 0x3B).head? == some 0x71)

/-- A sequence of a kind that `consume_write_console_vt_message` passes on:
OSC, DCS, APC, PM or SOS. -/
def isStringSequence : List Char32 → Bool
  | 0x1B :: ch :: _ => ch == 0x5D || ch == 0x50 || ch == 0x5F || ch == 0x5E || ch == 0x58
  | _ => false

/-- A control character that the parser hands on as text. -/
def isControlRun (text : List Char32) : Bool := text.length == 1 && text.all isC0OrDel

namespace VtConsole

/-- `consume_write_console_text_run`. -/
def consumeTextRun (cw : Char32 → Int) (emitVt : Bool) (text : List Char32) (s : VtConsole) : Option VtConsole :=
  if isControlRun text then some s else s.applyText cw emitVt text

/-- `consume_write_console_vt_message`, and the branch for text of
`write_console_payload`. `imageRows` is `iterm2_inline_image_rows` for the
pixels of a cell of the terminal: the rows of an image in a number of columns. -/
def consumeMessage (cw : Char32 → Int) (imageRows : List Char32 → Nat → Nat) (emitVt : Bool) (m : Emitted)
    (s : VtConsole) : Option VtConsole :=
  let view := s.sb.viewport.rect
  let payload := m.message.payload
  match m.id with
  | .continueText | .text => s.consumeTextRun cw emitVt payload.textValue
  | .unknownSequence =>
    if isStringSequence m.rawSequence then
      if isInlineImageSequence m.rawSequence then
        let rows := imageRows m.rawSequence (max 1 (view.right - view.left + 1)).toNat
        some ((applyLineFeed true)^[rows] s)
      else some s
    else s.consumeTextRun cw emitVt payload.textValue
  | .osc8Hyperlink => some s
  | .charDel =>
    if payload.textValue.head? = some 0x08 then
      some ((s.onConsole (·.setWrap false)).moveTo ⟨max view.left (i16 (s.state.position.x - 1)), s.state.position.y⟩)
    else some s
  | .useMainBuffer =>
    let s :=
      if s.altScreenCursor.hasState ∧ s.resizedInAltScreen then { s with resizedInAltScreen := false } else s
    s.vtMsgApplyTerminalState cw emitVt m.id payload
  | id => s.vtMsgApplyTerminalState cw emitVt id payload

/-- The messages of a write, one after the other. -/
def consumeMessages (cw : Char32 → Int) (imageRows : List Char32 → Nat → Nat) (emitVt : Bool) (ms : List Emitted)
    (s : VtConsole) : Option VtConsole :=
  ms.foldlM (fun s m => s.consumeMessage cw imageRows emitVt m) s

end VtConsole

/-- The loop of `write_console_payload`, for at most `n` calls of `parse`: the
messages it consumes. A carriage return with a line feed behind it is one line feed. -/
def outputMessages : Nat → VtParser → List Char32 → List Emitted × VtParser
  | 0, p, _ => ([], p)
  | n + 1, p, input =>
    if input.isEmpty then ([], p)
    else
      let (res, p) := p.parse input
      let rest := input.drop res.consumed
      if res.id = .continue_ then outputMessages n p rest
      else
        let crlf : Bool := res.id == .carriageReturn && rest.head? == some 0x0A
        let m : Emitted := if crlf then { res.emitted with id := .lineFeed } else res.emitted
        let (ms, p) := outputMessages n p.reset (if crlf then rest.tail else rest)
        (m :: ms, p)

/-- `dec_to_unicode`. -/
def decToUnicode (ch : Char32) : Char32 :=
  ([(0x6A, 0x2518), (0x6B, 0x2510), (0x6C, 0x250C), (0x6D, 0x2514), (0x6E, 0x253C), (0x6F, 0x23BA), (0x70, 0x23BB),
    (0x71, 0x2500), (0x72, 0x23BC), (0x73, 0x23BD), (0x74, 0x251C), (0x75, 0x2524), (0x76, 0x2534), (0x77, 0x252C),
    (0x78, 0x2502), (0x79, 0x2264), (0x7A, 0x2265), (0x7E, 0x00B7)].lookup ch).getD ch

/-- The characters of a write, in the character set that is in force. -/
def VtConsole.inCharset (s : VtConsole) (input : List Char32) : List Char32 :=
  if s.decLineDrawingMode then input.map fun ch => if 0x5F ≤ ch ∧ ch ≤ 0x7E then decToUnicode ch else ch else input

/-- What `write_console_payload` does with the characters of one write: the
parser and the console behind it. -/
def VtConsole.write (cw : Char32 → Int) (imageRows : List Char32 → Nat → Nat) (emitVt : Bool) (p : VtParser)
    (input : List Char32) (s : VtConsole) : Option (VtParser × VtConsole) :=
  let (ms, p) := outputMessages input.length p (s.inCharset input)
  (s.consumeMessages cw imageRows emitVt ms).map (p, ·)

end Corehost
