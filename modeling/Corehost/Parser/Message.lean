import Corehost.Row.Model

/-!
# Parser messages

The message identifiers and payloads of `vt_parser.hpp`. The payload union of
the source is a type with one constructor for each of its members: which one
holds is decided by the message identifier. A `short` is an integer in the
16-bit range.
-/

namespace Corehost

/-- `vt_message_id`. -/
inductive VtMessageId where
  | continueText | continue_ | text | unknownSequence
  | setWindowTitle | osc8Hyperlink
  | carriageReturn | lineFeed | reverseIndex
  | cursorUp | cursorDown | cursorForward | cursorBackward | cursorNextLine | cursorPrevLine
  | cursorForwardTab | cursorBackwardTab | cursorVertAbsolute | cursorHorizAbsolute | cursorPosition
  | saveCursor | restoreCursor | ansiSaveCursor | ansiRestoreCursor | setCursorShape
  | cursorEnableBlinking | cursorDisableBlinking | cursorShow | cursorHide
  | cursorKeysAppMode | cursorKeysNormalMode
  | horizontalTabSet | tabClearCurrent | tabClearAll | keypadAppMode | keypadNumericMode
  | designateCharsetLineDrawing | designateCharsetAscii
  | scrollUp | scrollDown | insertCharacters | deleteCharacters | eraseCharacters
  | insertLines | deleteLines | eraseInDisplay | eraseInLine | setScrollingRegion
  | useAlternateBuffer | useMainBuffer | setColumns132 | setColumns80 | resizeWindow
  | sgr | setPaletteColor
  | softReset | reportCursorPosition | deviceAttributes | cprResponse
  | win32InputKey | keyUp | keyDown | keyRight | keyLeft | keyHome | keyEnd | keyInsert | keyDelete
  | keyPageUp | keyPageDown | keyF1 | keyF2 | keyF3 | keyF4 | keyF5 | keyF6 | keyF7 | keyF8 | keyF9
  | keyF10 | keyF11 | keyF12 | keyCtrlUp | keyCtrlDown | keyCtrlRight | keyCtrlLeft
  | charDel | charSub | charEsc | charNul
deriving DecidableEq, Repr

/-- `vt_sgr_flag`. -/
inductive VtSgrFlag where
  | reset | bold | faint | italic | underline | blink | negative | conceal | strikethrough
deriving DecidableEq, Repr

def vtSgrFlagBit : VtSgrFlag → UInt16
  | .reset => 0x001
  | .bold => 0x002
  | .faint => 0x004
  | .italic => 0x008
  | .underline => 0x010
  | .blink => 0x020
  | .negative => 0x040
  | .conceal => 0x080
  | .strikethrough => 0x100

/-- `vt_sgr_color_payload`; `none` means that the sequence leaves the colour alone. -/
inductive VtSgrColor where
  | none
  | default
  | indexed (value : Nat)
  | rgb (r g b : Nat)
deriving DecidableEq, Repr

structure VtSgrPayload where
  setFlags : UInt16 := 0
  clearFlags : UInt16 := 0
  fg : VtSgrColor := .none
  bg : VtSgrColor := .none
deriving DecidableEq, Repr

namespace VtSgrPayload

def set (m : VtSgrPayload) (flag : VtSgrFlag) : VtSgrPayload :=
  { m with setFlags := m.setFlags ||| vtSgrFlagBit flag, clearFlags := m.clearFlags &&& ~~~vtSgrFlagBit flag }

def clear (m : VtSgrPayload) (flag : VtSgrFlag) : VtSgrPayload :=
  { m with clearFlags := m.clearFlags ||| vtSgrFlagBit flag, setFlags := m.setFlags &&& ~~~vtSgrFlagBit flag }

def has (m : VtSgrPayload) (flag : VtSgrFlag) : Bool := m.setFlags &&& vtSgrFlagBit flag != 0

def clears (m : VtSgrPayload) (flag : VtSgrFlag) : Bool := m.clearFlags &&& vtSgrFlagBit flag != 0

end VtSgrPayload

structure VtWin32KeyPayload where
  vk : Nat := 0
  sc : Nat := 0
  uc : Nat := 0
  keyDown : Bool := false
  controlState : Nat := 0
  repeatCount : Nat := 1
deriving DecidableEq, Repr

/-- `vt_message_payload`. -/
inductive VtPayload where
  | none
  | text (s : List Char32)
  | title (s : List Char32)
  | count (n : Int)
  | row (row : Int)
  | col (col : Int)
  | position (row col : Int)
  | eraseMode (mode : Int)
  | scrollRegion (top bottom : Int)
  | cursorShape (shape : Int)
  | resize (rows cols : Int)
  | palette (index : Int) (r g b : Nat)
  | cpr (row col : Int)
  | sgr (m : VtSgrPayload)
  | win32Key (key : VtWin32KeyPayload)
deriving DecidableEq, Repr

/-- `vt_message`. -/
structure VtMessage where
  payload : VtPayload := .none
  keyModifier : Int := 1
deriving DecidableEq, Repr

/-- `vt_parse_result`. -/
structure VtParseResult where
  id : VtMessageId := .continue_
  consumed : Nat := 0
  rawSequence : List Char32 := []
  message : VtMessage := {}
deriving DecidableEq, Repr

end Corehost
