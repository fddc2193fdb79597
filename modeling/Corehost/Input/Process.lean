import Corehost.Input.Model

/-!
# Terminal input in the bridge

The functions of `pipe_bridge.hpp` that turn terminal bytes into key events or
into the line of a read, up to `process_input`, in the order in which they call
each other. `process_input` is a loop over a chunk: `processByte` is its body,
which says besides the new state whether the loop returns.
-/

namespace Corehost

/-- `ascii_to_vk`. -/
def Host.asciiToVk {δ : Type} (host : Host δ) (ch : Nat) : Nat :=
  if 0x61 ≤ ch ∧ ch ≤ 0x7A then ch - 0x20
  else if 0x41 ≤ ch ∧ ch ≤ 0x5A then ch
  else if 0x30 ≤ ch ∧ ch ≤ 0x39 then ch
  else if ch = 0x0D ∨ ch = 0x0A then VK_RETURN
  else if ch = 0x20 then VK_SPACE
  else if ch = 0x09 then VK_TAB
  else if ch = 0x08 then VK_BACK
  else
    let vk := host.vkKeyScan ch
    if vk ≠ -1 then (vk % 0x100).toNat else 0

/-- `static_cast<WCHAR>`. -/
def wcharOf (ch : Char32) : Nat := ch % 0x10000

/-- `vt_input_engine::convert`. -/
def engineConvert (id : VtMessageId) (msg : VtMessage) : Option KeyEvent :=
  let mod := if msg.keyModifier > 1 then (msg.keyModifier - 1).toNat else 0
  let control :=
    (if hasFlag mod 1 then SHIFT_PRESSED else 0) ||| (if hasFlag mod 2 then LEFT_ALT_PRESSED else 0) |||
      (if hasFlag mod 4 then LEFT_CTRL_PRESSED else 0)
  let key (vk : Nat) : Option KeyEvent := some { virtualKeyCode := vk, controlKeyState := control }
  match id with
  | .keyUp => key VK_UP
  | .keyDown => key VK_DOWN
  | .keyRight => key VK_RIGHT
  | .keyLeft => key VK_LEFT
  | .keyHome => key VK_HOME
  | .keyEnd => key VK_END
  | .keyInsert => key VK_INSERT
  | .keyDelete => key VK_DELETE
  | .keyPageUp => key VK_PRIOR
  | .keyPageDown => key VK_NEXT
  | .keyF1 => key VK_F1
  | .keyF2 => key (VK_F1 + 1)
  | .keyF3 => key (VK_F1 + 2)
  | .keyF4 => key (VK_F1 + 3)
  | .keyF5 => key (VK_F1 + 4)
  | .keyF6 => key (VK_F1 + 5)
  | .keyF7 => key (VK_F1 + 6)
  | .keyF8 => key (VK_F1 + 7)
  | .keyF9 => key (VK_F1 + 8)
  | .keyF10 => key (VK_F1 + 9)
  | .keyF11 => key (VK_F1 + 10)
  | .keyF12 => key (VK_F1 + 11)
  | .keyCtrlUp => some { virtualKeyCode := VK_UP, controlKeyState := control ||| LEFT_CTRL_PRESSED }
  | .keyCtrlDown => some { virtualKeyCode := VK_DOWN, controlKeyState := control ||| LEFT_CTRL_PRESSED }
  | .keyCtrlRight => some { virtualKeyCode := VK_RIGHT, controlKeyState := control ||| LEFT_CTRL_PRESSED }
  | .keyCtrlLeft => some { virtualKeyCode := VK_LEFT, controlKeyState := control ||| LEFT_CTRL_PRESSED }
  | .charDel =>
    some { virtualKeyCode := VK_BACK, unicodeChar := if hasFlag mod 4 then 0x7F else 0x08, controlKeyState := control }
  | .charSub => some { virtualKeyCode := 26, unicodeChar := 0x1A, controlKeyState := control }
  | .charEsc => some { virtualKeyCode := VK_ESCAPE, unicodeChar := 0x1B, controlKeyState := control }
  | _ => none

/-- `is_decoded_key`. -/
def isDecodedKey (id : VtMessageId) : Bool :=
  id ∈ [.cursorUp, .cursorDown, .cursorForward, .cursorBackward, .cursorNextLine, .cursorPrevLine, .cursorPosition,
    .cursorBackwardTab, .cursorVertAbsolute, .cursorHorizAbsolute, .keyUp, .keyDown, .keyRight, .keyLeft, .keyHome,
    .keyEnd, .keyInsert, .keyDelete, .keyPageUp, .keyPageDown, .keyF1, .keyF2, .keyF3, .keyF4, .keyF5, .keyF6, .keyF7,
    .keyF8, .keyF9, .keyF10, .keyF11, .keyF12, .keyCtrlUp, .keyCtrlDown, .keyCtrlRight, .keyCtrlLeft, .charDel,
    .charSub, .charEsc, .charNul]

/-- `modified_f1_to_f4`. -/
def modifiedF1ToF4 (seq : List Char32) : VtMessageId :=
  match seq with
  | 0x1B :: 0x5B :: 0x31 :: 0x3B :: tail =>
    if tail.length < 2 ∨ tail.dropLast.any (fun c => !isDigit c) then .continue_
    else
      match tail.getLast? with
      | some 0x50 => .keyF1
      | some 0x51 => .keyF2
      | some 0x52 => .keyF3
      | some 0x53 => .keyF4
      | _ => .continue_
  | _ => .continue_

namespace PipeBridge

variable {δ : Type}

/-! ## Completions -/

/-- The end of both completion functions: the bridge lets go of the request and
sends its completion, unless a handler that is still serving it returns it. -/
def finish (b : PipeBridge δ) (m : MsgRef) (status : Nat) (data : CompletionData) : PipeBridge δ :=
  let msg := (b.msgs m).prepareCompletion status data
  let b : PipeBridge δ := { b.setMsg m msg with pending := .none, processControlZ := false }
  if b.serving = some m then b else { b with completed := b.completed ++ msg.complete.toList }

/-- The part of `prepare_raw_read_completion` that normalises the line end. -/
def rawReadData (readbuf : List UInt8) (capacity : Nat) : List UInt8 :=
  let data := readbuf.take capacity
  if data.getLast? = some 0x0D then if data.length < capacity then data ++ [0x0A] else data
  else if data.getLast? = some 0x0A then
    if data.dropLast.getLast? ≠ some 0x0D then
      if data.length < capacity then data.dropLast ++ [0x0D, 0x0A] else data
    else data
  else data

def completePendingConsoleInput (b : PipeBridge δ) : PipeBridge δ :=
  match b.pending with
  | .consoleInput m =>
    match (b.msgs m).request with
    | .getConsoleInput r =>
      let records := b.inp.take r.maxRecords
      let inp := if hasFlag r.flags CONSOLE_READ_NOREMOVE then b.inp else b.inp.drop r.maxRecords
      { b with inp := inp }.finish m statusSuccess (.records records)
    | _ => b.finish m statusSuccess (.records [])
  | _ => b

/-- What `complete_pending` does besides the completion: the edited line goes to
the history, and the line editor starts over. -/
def endLine (b : PipeBridge δ) : PipeBridge δ :=
  let history := if b.readAborted then b.line.history else b.line.history.push b.line.buf
  { b with
    readbuf := []
    line := { buf := [], cursor := 0, history := history.resetBrowse }
    inputParser := { b.inputParser with raw := [] } }

def completePending (b : PipeBridge δ) : PipeBridge δ :=
  match b.pending with
  | .none => b
  | .consoleInput _ => b.completePendingConsoleInput
  | .rawRead m =>
    let b :=
      if b.readAborted then b.finish m statusAlerted .empty
      else b.finish m statusSuccess (.raw (rawReadData b.readbuf (b.msgs m).rawReadCapacity))
    b.endLine
  | .consoleRead m =>
    let b :=
      if b.readAborted then b.finish m statusAlerted .empty
      -- the alias expansion and the encoding of the line are left out
      else if b.vtEof ∧ b.line.buf = [] ∧ b.readbuf = [] then b.finish m statusSuccess .empty
      else b.finish m statusSuccess (.line b.line.buf)
    b.endLine

def completePendingWithEof (b : PipeBridge δ) : PipeBridge δ := { b with vtEof := true }.completePending

/-! ## Key events -/

/-- `inp.write(&record, 1)` followed by `complete_pending_console_input()`. -/
def emitRecord (b : PipeBridge δ) (record : InputRecord) : PipeBridge δ :=
  { b with inp := inputWrite b.inp [record] }.completePendingConsoleInput

def emitKey (host : Host δ) (b : PipeBridge δ) (vk uc : Nat) (control : Nat := 0) : PipeBridge δ :=
  let key : KeyEvent :=
    { virtualKeyCode := vk
      virtualScanCode := host.mapVirtualKey vk
      unicodeChar := uc
      controlKeyState := control }
  b.emitRecord (.key key)

def emitKeyPair (host : Host δ) (b : PipeBridge δ) (vk uc : Nat) (control : Nat := 0) : PipeBridge δ :=
  let up : KeyEvent :=
    { keyDown := false
      virtualKeyCode := vk
      virtualScanCode := host.mapVirtualKey vk
      controlKeyState := control }
  (b.emitKey host vk uc control).emitRecord (.key up)

/-- `_write_key_event_pair`. -/
def writeKeyEventPair (host : Host δ) (b : PipeBridge δ) (k : KeyEvent) : PipeBridge δ :=
  b.emitKeyPair host k.virtualKeyCode k.unicodeChar k.controlKeyState

/-- `input_printable`, also called `_write_char_key_event`. -/
def inputPrintable (host : Host δ) (b : PipeBridge δ) (ch : Char32) : PipeBridge δ :=
  let b := b.emitKeyPair host (host.asciiToVk (wcharOf ch)) (wcharOf ch)
  { b with line := if ch ≠ 0x0D then b.line.append ch else b.line.clear }

def inputEnter (host : Host δ) (b : PipeBridge δ) : PipeBridge δ := b.emitKey host VK_RETURN 0x0D

/-- `inject_terminal_response` and `emit_raw_sequence_as_input`. -/
def emitRawSequenceAsInput (host : Host δ) (b : PipeBridge δ) (sequence : List Char32) : PipeBridge δ :=
  sequence.foldl (inputPrintable host) b

/-- `process_input_key_event`, and the key event that the other
`process_input_…` functions make when no line is edited. -/
def processInputKeyEvent (host : Host δ) (b : PipeBridge δ) (id : VtMessageId) (msg : VtMessage) : PipeBridge δ :=
  match engineConvert id msg with
  | some k => b.writeKeyEventPair host k
  | none => b

/-- An editing key: it edits the line of a ReadConsole, or it is the key event `id`. -/
def processInputEdit (host : Host δ) (b : PipeBridge δ) (kind : PendingKind) (edit : CookedLine → CookedLine)
    (id : VtMessageId) (msg : VtMessage) : PipeBridge δ :=
  if kind = .consoleRead then { b with line := edit b.line } else b.processInputKeyEvent host id msg

def processInputMoveLeft (host : Host δ) (b : PipeBridge δ) (kind : PendingKind) (msg : VtMessage) : PipeBridge δ :=
  b.processInputEdit host kind CookedLine.editMoveLeft .keyLeft msg

def processInputMoveRight (host : Host δ) (b : PipeBridge δ) (kind : PendingKind) (msg : VtMessage) : PipeBridge δ :=
  b.processInputEdit host kind CookedLine.editMoveRight .keyRight msg

def processInputHome (host : Host δ) (b : PipeBridge δ) (kind : PendingKind) (msg : VtMessage) : PipeBridge δ :=
  b.processInputEdit host kind CookedLine.editHome .keyHome msg

def processInputEnd (host : Host δ) (b : PipeBridge δ) (kind : PendingKind) (msg : VtMessage) : PipeBridge δ :=
  b.processInputEdit host kind CookedLine.editEnd .keyEnd msg

def processInputDelete (host : Host δ) (b : PipeBridge δ) (kind : PendingKind) (msg : VtMessage) : PipeBridge δ :=
  b.processInputEdit host kind CookedLine.editDelete .keyDelete msg

def processInputBackspace (host : Host δ) (b : PipeBridge δ) (kind : PendingKind) (msg : VtMessage) : PipeBridge δ :=
  b.processInputEdit host kind CookedLine.editBackspace .charDel msg

def processInputHistoryUp (host : Host δ) (b : PipeBridge δ) (kind : PendingKind) (msg : VtMessage) : PipeBridge δ :=
  b.processInputEdit host kind CookedLine.historyUp .keyUp msg

def processInputHistoryDown (host : Host δ) (b : PipeBridge δ) (kind : PendingKind) (msg : VtMessage) : PipeBridge δ :=
  b.processInputEdit host kind CookedLine.historyDown .keyDown msg

def processInputTab (host : Host δ) (b : PipeBridge δ) (control : Nat := 0) : PipeBridge δ :=
  b.emitKeyPair host VK_TAB 0x09 control

/-- One character of `process_input_text`. -/
def processInputTextChar (host : Host δ) (kind : PendingKind) (b : PipeBridge δ) (ch : Char32) : PipeBridge δ :=
  if ch ≤ 0x1F ∨ ch = 0x7F then
    if kind ≠ .consoleRead ∧ 0x01 ≤ ch ∧ ch ≤ 0x1A then b.emitKeyPair host (0x41 + ch - 1) ch LEFT_CTRL_PRESSED else b
  else if kind = .consoleRead then { b with line := b.line.editInsert ch }
  else b.inputPrintable host ch

def processInputText (host : Host δ) (b : PipeBridge δ) (kind : PendingKind) (msg : VtMessage) : PipeBridge δ :=
  match msg.payload with
  | .text s => s.foldl (processInputTextChar host kind) b
  | _ => b

/-- `expecting_cpr_reply`. -/
def expectingCprReply (b : PipeBridge δ) : Bool := b.pendingInheritCursor || b.resizeSyncOutstanding != 0

/-- `process_input_cpr_response`: whether corehost itself has asked for the
report. What it does to the cursor is left out. -/
def processInputCprResponse (b : PipeBridge δ) (msg : VtMessage) : Bool × PipeBridge δ :=
  match msg.payload with
  | .cpr row col =>
    if b.pendingInheritCursor ∧ row > 0 ∧ col > 0 then (true, { b with pendingInheritCursor := false })
    else if b.resizeSyncOutstanding > 0 ∧ row > 0 ∧ col > 0 then
      (true, { b with resizeSyncOutstanding := b.resizeSyncOutstanding - 1 })
    else (false, b)
  | _ => (false, b)

/-- `vt_input_passthrough`. -/
def vtInputPassthrough (b : PipeBridge δ) (kind : PendingKind) : Bool :=
  hasFlag b.inputMode ENABLE_VIRTUAL_TERMINAL_INPUT && kind != .consoleRead && kind != .rawRead

/-! ## Line ends -/

/-- `queue_unprocessed_vt_input`: `rest` is what follows the first `pos` bytes of `_readbuf`. -/
def queueUnprocessedVtInput (b : PipeBridge δ) (pos : Nat) (rest : List UInt8) : PipeBridge δ :=
  if rest = [] then b else { b with queuedVtInput := rest ++ b.queuedVtInput, readbuf := b.readbuf.take pos }

/-- `on_ctrl_event`: whether a read was ended. The event itself goes to the processes of the console. -/
def onCtrlEvent (b : PipeBridge δ) (ctrlBreak : Bool) : Bool × PipeBridge δ :=
  let b := if ctrlBreak then { b with inp := [] } else b
  if b.pendingKind = .consoleRead ∨ b.pendingKind = .rawRead then
    (true, { { b with lineFound := true, readAborted := true }.completePending with readAborted := false })
  else (false, b)

/-- `edit_submit_line`. -/
def editSubmitLine (b : PipeBridge δ) : PipeBridge δ := { b with lineFound := true }.completePending

/-- `edit_key_event_for_console_read`: whether Enter has completed the read. -/
def editKeyEventForConsoleRead (b : PipeBridge δ) (key : KeyEvent) : Bool × PipeBridge δ :=
  let edit (f : CookedLine → CookedLine) : Bool × PipeBridge δ := (false, { b with line := f b.line })
  if key.keyDown = false then (false, b)
  else if key.virtualKeyCode = VK_RETURN then (true, b.editSubmitLine)
  else if key.virtualKeyCode = VK_BACK then edit CookedLine.editBackspace
  else if key.virtualKeyCode = VK_DELETE then edit CookedLine.editDelete
  else if key.virtualKeyCode = VK_LEFT then edit CookedLine.editMoveLeft
  else if key.virtualKeyCode = VK_RIGHT then edit CookedLine.editMoveRight
  else if key.virtualKeyCode = VK_HOME then edit CookedLine.editHome
  else if key.virtualKeyCode = VK_END then edit CookedLine.editEnd
  else if key.virtualKeyCode = VK_UP then edit CookedLine.historyUp
  else if key.virtualKeyCode = VK_DOWN then edit CookedLine.historyDown
  else if key.unicodeChar ≥ 0x20 ∨ key.unicodeChar = 0x09 then edit fun l => l.editInsert key.unicodeChar
  else (false, b)

/-- `consume_input_buffer_for_console_read`, over the records of `inp`. -/
def consumeRecords (b : PipeBridge δ) : List InputRecord → Bool × PipeBridge δ
  | [] => (false, { b with inp := [] })
  | record :: records =>
    if b.pendingKind ≠ .consoleRead then (false, { b with inp := record :: records })
    else
      match record with
      | .key key =>
        let (done, b) := ({ b with inp := records }.takeItem (.key key)).editKeyEventForConsoleRead key
        if done then (true, b) else b.consumeRecords records
      | _ => b.consumeRecords records

def consumeInputBufferForConsoleRead (b : PipeBridge δ) : Bool × PipeBridge δ := b.consumeRecords b.inp

/-- The key of a Win32 input message. -/
def win32KeyOf (msg : VtMessage) : VtWin32KeyPayload :=
  match msg.payload with
  | .win32Key k => k
  | _ => {}

/-- Ctrl+C, when it is processed, and Ctrl+Break. -/
def isCtrlKey (k : VtWin32KeyPayload) (inputMode : Nat) : Bool :=
  let ctrl := hasFlag k.controlState (LEFT_CTRL_PRESSED ||| RIGHT_CTRL_PRESSED)
  let alt := hasFlag k.controlState (LEFT_ALT_PRESSED ||| RIGHT_ALT_PRESSED)
  let ctrlC := k.vk == 0x43 && hasFlag inputMode ENABLE_PROCESSED_INPUT
  k.keyDown && ctrl && !alt && (ctrlC || k.vk == VK_CANCEL)

/-- The key as `edit_key_event_for_console_read` gets it. -/
def win32EditKey (k : VtWin32KeyPayload) : KeyEvent where
  repeatCount := 0
  virtualKeyCode := k.vk
  virtualScanCode := k.sc
  unicodeChar := wcharOf k.uc
  controlKeyState := k.controlState

/-- The key as a key event. -/
def win32KeyEvent (k : VtWin32KeyPayload) : KeyEvent where
  keyDown := k.keyDown
  repeatCount := k.repeatCount
  virtualKeyCode := k.vk
  virtualScanCode := k.sc
  unicodeChar := k.uc
  controlKeyState := k.controlState

/-- `process_input_win32_key`: whether the loop of `process_input` returns. -/
def processInputWin32Key (b : PipeBridge δ) (kind : PendingKind) (msg : VtMessage) (pos : Nat) (rest : List UInt8) :
    Bool × PipeBridge δ :=
  let k := win32KeyOf msg
  if isCtrlKey k b.inputMode then
    let (ended, b) := b.onCtrlEvent (!(k.vk == 0x43 && hasFlag b.inputMode ENABLE_PROCESSED_INPUT))
    if ended then (true, b.queueUnprocessedVtInput pos rest) else (false, b)
  else if kind = .consoleRead then
    if k.keyDown = false then (false, b)
    else
      let (done, b) := b.editKeyEventForConsoleRead (win32EditKey k)
      if done then (true, b.queueUnprocessedVtInput pos rest) else (false, b)
  else
    let b := if k.keyDown ∧ k.vk = VK_RETURN then { b with lineFound := true } else b
    (false, if kind ≠ .rawRead then b.emitRecord (.key (win32KeyEvent k)) else b)

/-- `_finish_line_terminator`; `pos` bytes of `_readbuf` belong to the line and `rest` follows them. -/
def finishLineTerminator (b : PipeBridge δ) (pos : Nat) (rest : List UInt8) : PipeBridge δ :=
  ({ b with lineFound := true }.queueUnprocessedVtInput pos rest).completePending

/-- `_on_line_terminator`. A CR takes an LF that follows it in the chunk, or,
at the end of the chunk, an LF that is next in the pipe. -/
def onLineTerminator (b : PipeBridge δ) (byte : UInt8) (pos : Nat) (rest : List UInt8) : PipeBridge δ :=
  if byte = 0x0D then
    match rest with
    | 0x0A :: rest => (b.take 0x0A).finishLineTerminator (pos + 1) rest
    | [] =>
      let (hasLf, vtIn) := b.vtIn.tryConsumeByte 0x0A
      let b := { b with vtIn }
      if hasLf then
        let b := if b.readbuf.length < bodySize then { b with readbuf := b.readbuf ++ [0x0A] } else b
        (b.take 0x0A).finishLineTerminator pos []
      else b.finishLineTerminator pos []
    | _ => b.finishLineTerminator pos rest
  else b.finishLineTerminator pos rest

/-! ## process_input -/

/-- The switch of `process_input` over the message of a byte. -/
def handleMessage (host : Host δ) (b : PipeBridge δ) (id : VtMessageId) (m : VtParseResult) (pos : Nat)
    (rest : List UInt8) : Bool × PipeBridge δ :=
  let kind := b.pendingKind
  let msg := m.message
  match id with
  | .text => (false, b.processInputText host kind msg)
  | .unknownSequence => (false, b.emitRawSequenceAsInput host m.rawSequence)
  | .osc8Hyperlink => (false, b.emitRawSequenceAsInput host m.rawSequence)
  | .carriageReturn =>
    let b := if kind ≠ .consoleRead ∧ kind ≠ .rawRead then b.inputEnter host else b
    (true, b.onLineTerminator 0x0D pos rest)
  | .lineFeed =>
    let b := if kind ≠ .consoleRead ∧ kind ≠ .rawRead then b.inputPrintable host 0x0A else b
    (true, b.onLineTerminator 0x0A pos rest)
  | .cursorUp => (false, b.processInputHistoryUp host kind msg)
  | .cursorDown => (false, b.processInputHistoryDown host kind msg)
  | .cursorForward => (false, b.processInputMoveRight host kind msg)
  | .cursorBackward => (false, b.processInputMoveLeft host kind msg)
  | .cursorNextLine => (false, b.processInputEnd host kind msg)
  | .cursorPrevLine => (false, b.processInputEnd host kind msg)
  | .cursorForwardTab => (false, b.processInputTab host)
  | .cursorBackwardTab => (false, b.processInputTab host SHIFT_PRESSED)
  | .cursorVertAbsolute => (false, b)
  | .cursorHorizAbsolute => (false, b)
  | .cursorPosition => (false, b.processInputHome host kind msg)
  -- the new size reaches the screen, not the input
  | .resizeWindow => (false, b)
  | .cprResponse =>
    let (own, b) := b.processInputCprResponse msg
    (false, if own then b else b.emitRawSequenceAsInput host m.rawSequence)
  | .win32InputKey => b.processInputWin32Key kind msg pos rest
  | .keyUp => (false, b.processInputHistoryUp host kind msg)
  | .keyDown => (false, b.processInputHistoryDown host kind msg)
  | .keyRight => (false, b.processInputMoveRight host kind msg)
  | .keyLeft => (false, b.processInputMoveLeft host kind msg)
  | .keyHome => (false, b.processInputHome host kind msg)
  | .keyEnd => (false, b.processInputEnd host kind msg)
  | .keyDelete => (false, b.processInputDelete host kind msg)
  | .charDel => (false, b.processInputBackspace host kind msg)
  | .keyInsert | .keyPageUp | .keyPageDown | .keyF1 | .keyF2 | .keyF3 | .keyF4 | .keyF5 | .keyF6 | .keyF7 | .keyF8
  | .keyF9 | .keyF10 | .keyF11 | .keyF12 | .charSub | .charEsc =>
    (false, b.processInputKeyEvent host id msg)
  | _ => (false, b.emitRawSequenceAsInput host m.rawSequence)

/-- Whether a message ends a line, as CR or as LF. -/
def lineEndOf (id : VtMessageId) : Option UInt8 :=
  match id with
  | .carriageReturn => some 0x0D
  | .lineFeed => some 0x0A
  | _ => none

/-- What `process_input` does with a code point that the decoder completes. -/
def processChar (host : Host δ) (b : PipeBridge δ) (ch : Char32) (byte : UInt8) (pos : Nat) (rest : List UInt8) :
    Bool × PipeBridge δ :=
  let (parsed, inputParser) := b.inputParser.parse [ch]
  let b := { b with inputParser }
  let kind := b.pendingKind
  if parsed.id = .continueText then
    let b := b.take byte
    let b :=
      if kind = .consoleRead then { b with line := b.line.editInsert ch }
      else if kind ≠ .rawRead then b.inputPrintable host ch
      else b
    (false, { b with inputParser := b.inputParser.reset })
  else if parsed.id = .continue_ then (false, b.take byte)
  else
    let fkey := modifiedF1ToF4 parsed.rawSequence
    let id :=
      if fkey ≠ .continue_ ∧ (parsed.id ≠ .cprResponse ∨ b.expectingCprReply = false) then fkey else parsed.id
    let b := b.take byte (lineEndOf id)
    let (stop, b) :=
      if isDecodedKey id ∧ b.vtInputPassthrough kind then
        let sequence := if parsed.rawSequence = [] then [ch] else parsed.rawSequence
        (false, b.emitRawSequenceAsInput host sequence)
      else b.handleMessage host id parsed pos rest
    (stop, { b with inputParser := b.inputParser.reset })

/-- The body of the loop of `process_input`: whether the loop returns, and the
new state. `pos` is the number of bytes of `_readbuf` up to and with this one. -/
def processByte (host : Host δ) (b : PipeBridge δ) (byte : UInt8) (pos : Nat) (rest : List UInt8) :
    Bool × PipeBridge δ :=
  if byte = 0x03 ∧ hasFlag b.inputMode ENABLE_PROCESSED_INPUT ∧ b.inputParser.inGround then
    let (ended, b) := (b.take byte).onCtrlEvent false
    if ended then (true, b.queueUnprocessedVtInput pos rest) else (false, b)
  else if b.processControlZ ∧ byte = 0x1A then
    (true, ({ b.take byte with lineFound := true }.queueUnprocessedVtInput pos rest).completePending)
  else
    match host.utf8StreamDecoder b.utf8Decoder byte with
    | (none, utf8Decoder) => (false, { b with utf8Decoder }.take byte)
    | (some ch, utf8Decoder) => { b with utf8Decoder }.processChar host ch byte pos rest

/-- The loop of `process_input` over the bytes of `_readbuf` from `pos` on. -/
def processBytes (host : Host δ) (b : PipeBridge δ) (pos : Nat) : List UInt8 → PipeBridge δ
  | [] => b
  | byte :: rest =>
    let (stop, b) := b.processByte host byte (pos + 1) rest
    if stop then b else b.processBytes host (pos + 1) rest

def processInput (host : Host δ) (b : PipeBridge δ) (pos : Nat) (chunk : List UInt8) (initial : Bool) : PipeBridge δ :=
  (b.startRound pos chunk initial).processBytes host pos chunk

end PipeBridge

end Corehost
