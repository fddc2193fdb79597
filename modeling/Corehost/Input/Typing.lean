import Corehost.Input.LineEnd
import Corehost.Lib.Zipper

/-!
# What is typed, and the line editor

The line editor as it is meant, and what terminal input means to it. The bytes
go through the decoder and the parser of the bridge; `keysOf` says which
messages are keys of the editor, and `isStray` which ones the bridge treats as
input of another kind although a line is being read.

* `LineEditor.press`: the keys of the editor;
* `lineTyped`: the line that is typed, up to its end;
* `straysAt`: a byte completes such input.
-/

namespace Corehost

open Lib

inductive EditKey where
  | insert (ch : Char32)
  | backspace | delete | left | right | home | end_ | historyUp | historyDown
deriving DecidableEq, Repr

/-- The line that is edited, and the commands that Up and Down go through. -/
structure LineEditor where
  line : Zipper Char32 := {}
  history : CommandHistory := {}
deriving DecidableEq, Repr

namespace LineEditor

/-- Every change of the line ends the browsing of the history. -/
def change (l : LineEditor) (f : Zipper Char32 → Zipper Char32) : LineEditor := ⟨f l.line, l.history.breakBrowse⟩

def load (l : LineEditor) : Option (List Char32 × CommandHistory) → LineEditor
  | none => l
  | some (command, history) => ⟨.ofList command, history⟩

def press (l : LineEditor) : EditKey → LineEditor
  | .insert ch => l.change (Zipper.insert ch)
  | .backspace => l.change Zipper.deleteLeft
  | .delete => l.change Zipper.deleteRight
  | .left => { l with line := l.line.moveLeft }
  | .right => { l with line := l.line.moveRight }
  | .home => { l with line := l.line.home }
  | .end_ => { l with line := .ofList l.line.toList }
  | .historyUp => l.load (l.history.browseUp l.line.toList)
  | .historyDown => l.load l.history.browseDown

def text (l : LineEditor) : List Char32 := l.line.toList

end LineEditor

/-! ## What a message means -/

/-- The editor key that a key event is. -/
def eventEditKeys (key : KeyEvent) : List EditKey :=
  if key.keyDown = false then []
  else if key.virtualKeyCode = VK_RETURN then []
  else if key.virtualKeyCode = VK_BACK then [.backspace]
  else if key.virtualKeyCode = VK_DELETE then [.delete]
  else if key.virtualKeyCode = VK_LEFT then [.left]
  else if key.virtualKeyCode = VK_RIGHT then [.right]
  else if key.virtualKeyCode = VK_HOME then [.home]
  else if key.virtualKeyCode = VK_END then [.end_]
  else if key.virtualKeyCode = VK_UP then [.historyUp]
  else if key.virtualKeyCode = VK_DOWN then [.historyDown]
  else if key.unicodeChar ≥ 0x20 ∨ key.unicodeChar = 0x09 then [.insert key.unicodeChar]
  else []

/-- The editor key that a Win32 key is. -/
def win32EditKeys (k : VtWin32KeyPayload) : List EditKey :=
  if k.keyDown = false then [] else eventEditKeys (PipeBridge.win32EditKey k)

/-- No C0 control and not DEL. -/
def isPrintable (ch : Char32) : Bool := 0x20 ≤ ch && ch ≠ 0x7F

/-- The editor keys that a message is. A Tab that is typed is a character; what
is no key of the editor means nothing to it. -/
def keysOf (parsed : VtParseResult) : List EditKey :=
  if modifiedF1ToF4 parsed.rawSequence ≠ .continue_ then []
  else
    match parsed.id with
    | .text =>
      match parsed.message.payload with
      | .text s => (s.filter isPrintable).map .insert
      | _ => []
    | .cursorForwardTab => if parsed.rawSequence = [] then [.insert 0x09] else []
    | .cursorUp | .keyUp => [.historyUp]
    | .cursorDown | .keyDown => [.historyDown]
    | .cursorForward | .keyRight => [.right]
    | .cursorBackward | .keyLeft => [.left]
    | .cursorPosition | .keyHome => [.home]
    | .cursorNextLine | .cursorPrevLine | .keyEnd => [.end_]
    | .keyDelete => [.delete]
    | .charDel => [.backspace]
    | .win32InputKey => win32EditKeys (PipeBridge.win32KeyOf parsed.message)
    | _ => []

/-- A line end that somebody has typed. -/
def LineEnd.isEnter : LineEnd → Bool
  | .carriageReturn | .lineFeed | .enterKey => true
  | _ => false

section

variable {δ : Type} (host : Host δ) (mode : Nat) (controlZ : Bool)

/-- The message that a byte completes. The end of a read by Ctrl+C or Ctrl+Z is no message. -/
def typedMessage (σ : Scanner δ) (byte : UInt8) : Option (Char32 × VtParseResult) :=
  if byte = 0x03 ∧ hasFlag mode ENABLE_PROCESSED_INPUT ∧ σ.inputParser.inGround then none
  else if controlZ ∧ byte = 0x1A then none
  else
    match host.utf8StreamDecoder σ.utf8Decoder byte with
    | (none, _) => none
    | (some ch, _) => some (ch, (σ.inputParser.parse [ch]).1)

/-- The editor keys that a byte completes. -/
def typedKeys (σ : Scanner δ) (byte : UInt8) : List EditKey :=
  match typedMessage host mode controlZ σ byte with
  | none => []
  | some (ch, parsed) =>
    if parsed.id = .continueText then [.insert ch] else if parsed.id = .continue_ then [] else keysOf parsed

/-- The line that the bytes are to the editor: what has ended it, if anything,
and the editor. -/
def lineTyped (σ : Scanner δ) (l : LineEditor) : List UInt8 → Option LineEnd × LineEditor
  | [] => (none, l)
  | byte :: bytes =>
    let l := (typedKeys host mode controlZ σ byte).foldl LineEditor.press l
    match scanByte host mode controlZ σ byte with
    | (some e, _) => (some e, l)
    | (none, σ) => lineTyped σ l bytes

end

/-! ## Messages that stray -/

namespace PipeBridge

variable {δ : Type}

/-- The message that `process_input` acts on. -/
def messageId (b : PipeBridge δ) (parsed : VtParseResult) : VtMessageId :=
  let fkey := modifiedF1ToF4 parsed.rawSequence
  if fkey ≠ .continue_ ∧ (parsed.id ≠ .cprResponse ∨ b.expectingCprReply = false) then fkey else parsed.id

/-- A message that does not stay in the line editor: a Tab; a function key or
another key that the editor does not have; a sequence that corehost does not
know or has no use for; a cursor report that corehost does not wait for. -/
def isStray (b : PipeBridge δ) (parsed : VtParseResult) : Bool :=
  match b.messageId parsed with
  | .cursorForwardTab | .cursorBackwardTab | .keyInsert | .keyPageUp | .keyPageDown | .keyF1 | .keyF2 | .keyF3 | .keyF4
  | .keyF5 | .keyF6 | .keyF7 | .keyF8 | .keyF9 | .keyF10 | .keyF11 | .keyF12 | .charSub | .charEsc => true
  | .text | .carriageReturn | .lineFeed | .cursorUp | .cursorDown | .cursorForward | .cursorBackward | .cursorNextLine
  | .cursorPrevLine | .cursorVertAbsolute | .cursorHorizAbsolute | .cursorPosition | .resizeWindow | .win32InputKey
  | .keyUp | .keyDown | .keyRight | .keyLeft | .keyHome | .keyEnd | .keyDelete | .charDel => false
  | .cprResponse => !(b.processInputCprResponse parsed.message).1 && parsed.rawSequence != []
  | _ => parsed.rawSequence != []

/-- The byte completes a message that strays. -/
def straysAt (host : Host δ) (b : PipeBridge δ) (byte : UInt8) : Bool :=
  match typedMessage host b.inputMode b.processControlZ b.scanner byte with
  | none => false
  | some (_, parsed) => parsed.id ≠ .continueText && parsed.id ≠ .continue_ && b.isStray parsed

end PipeBridge

end Corehost
