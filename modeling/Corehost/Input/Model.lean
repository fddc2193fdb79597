import Corehost.Parser.Model

/-!
# Input requests and records

The data of the input side: the requests a client makes (`condrv_io.hpp`), the
records of `input_buffer.hpp`, the terminal's input pipe (`pipe_bridge_io.hpp`),
the cooked line with its history (`command_history_state.hpp`), and the state of
`pipe_bridge` as far as input is concerned.

Output to the terminal is left out: no function of this side reads it back. The
UTF-8 decoder and the keyboard layout are code outside the repository and are
given as a `Host`.
-/

namespace Corehost

/-- The libunicode decoder behind `utf8_stream_decoder`, and the keyboard layout. -/
structure Host (δ : Type) where
  /-- Reads a byte: a code point, if one is complete, and the next state. -/
  decode : δ → UInt8 → Option Char32 × δ
  expectedLength : δ → Nat
  vkKeyScan : Nat → Int
  mapVirtualKey : Nat → Nat

/-- `utf8_stream_decoder`. -/
def Host.utf8StreamDecoder {δ : Type} (host : Host δ) (d : δ) (byte : UInt8) : Option Char32 × δ :=
  match host.decode d byte with
  | (some ch, d) => (some ch, d)
  | (none, d) => if host.expectedLength d = 0 then (some 0xFFFD, d) else (none, d)

/-! ## Records -/

/-- `KEY_EVENT_RECORD`. -/
structure KeyEvent where
  keyDown : Bool := true
  repeatCount : Nat := 1
  virtualKeyCode : Nat := 0
  virtualScanCode : Nat := 0
  unicodeChar : Nat := 0
  controlKeyState : Nat := 0
deriving DecidableEq, Repr

/-- `INPUT_RECORD`: a key, a new window size or another event. -/
inductive InputRecord where
  | key (k : KeyEvent)
  | windowBufferSize (x y : Int)
  | other (eventType : Nat)
deriving DecidableEq, Repr

def VK_BACK : Nat := 0x08
def VK_TAB : Nat := 0x09
def VK_RETURN : Nat := 0x0D
def VK_CANCEL : Nat := 0x03
def VK_ESCAPE : Nat := 0x1B
def VK_SPACE : Nat := 0x20
def VK_PRIOR : Nat := 0x21
def VK_NEXT : Nat := 0x22
def VK_END : Nat := 0x23
def VK_HOME : Nat := 0x24
def VK_LEFT : Nat := 0x25
def VK_UP : Nat := 0x26
def VK_RIGHT : Nat := 0x27
def VK_DOWN : Nat := 0x28
def VK_INSERT : Nat := 0x2D
def VK_DELETE : Nat := 0x2E
def VK_F1 : Nat := 0x70

def RIGHT_ALT_PRESSED : Nat := 0x01
def LEFT_ALT_PRESSED : Nat := 0x02
def RIGHT_CTRL_PRESSED : Nat := 0x04
def LEFT_CTRL_PRESSED : Nat := 0x08
def SHIFT_PRESSED : Nat := 0x10

def ENABLE_PROCESSED_INPUT : Nat := 0x001
def ENABLE_WINDOW_INPUT : Nat := 0x008
def ENABLE_VIRTUAL_TERMINAL_INPUT : Nat := 0x200

def CONSOLE_READ_NOREMOVE : Nat := 0x1
def CONSOLE_READ_NOWAIT : Nat := 0x2

/-- `(mode & flag) != 0`. -/
def hasFlag (mode flag : Nat) : Bool := mode &&& flag != 0

/-- `input_buffer::max_events`. -/
def maxEvents : Nat := 4096

/-- `input_buffer::write`. -/
def inputWrite (events records : List InputRecord) : List InputRecord :=
  events ++ records.take (maxEvents - events.length)

/-- `input_buffer::prepend`. -/
def inputPrepend (events records : List InputRecord) : List InputRecord :=
  records.take (maxEvents - events.length) ++ events

/-! ## Requests and completions -/

/-- `sizeof(io_msg::body)`, also the size of `_readbuf`. -/
def bodySize : Nat := 4096

/-- `sizeof(CONSOLE_MSG_HEADER)`, `sizeof(CONSOLE_READCONSOLE_MSG)`,
`sizeof(CONSOLE_GETCONSOLEINPUT_MSG)` and `sizeof(INPUT_RECORD)`. -/
def messageHeaderSize : Nat := 8
def readConsoleSize : Nat := 20
def getConsoleInputSize : Nat := 8
def inputRecordSize : Nat := 20

/-- The descriptor of ReadConsole. `body` is what `io_msg::body` holds behind
it, and `behind` what the memory holds behind `io_msg::body`. -/
structure ReadConsoleMsg where
  inputSize : Nat := messageHeaderSize + readConsoleSize
  outputSize : Nat := bodySize
  unicode : Bool := true
  processControlZ : Bool := false
  exeNameLength : Nat := 0
  initialNumBytes : Nat := 0
  body : List UInt8 := []
  behind : List UInt8 := []
deriving DecidableEq, Repr

/-- The descriptor of GetConsoleInput. -/
structure GetConsoleInputMsg where
  inputSize : Nat := messageHeaderSize + getConsoleInputSize
  outputSize : Nat := bodySize
  flags : Nat := 0
deriving DecidableEq, Repr

/-- What a message of ConDrv asks for. `output` stands for the requests that
write to the console: they can put answers to a terminal query into the input
and send queries of their own to the terminal. `empty` is the descriptor with
function 0. -/
inductive Request where
  | empty
  | connect
  | disconnect
  | rawRead (outputSize : Nat)
  | readConsole (r : ReadConsoleMsg)
  | getConsoleInput (r : GetConsoleInputMsg)
  | getNumberOfInputEvents
  | writeConsoleInput (append : Bool) (records : List InputRecord)
  | flushInput
  | setInputMode (mode : Nat)
  | output (responses : List Char32) (cursorQueries : Nat)
  | other
deriving DecidableEq, Repr

/-- The requests that read input. -/
def Request.isRead : Request → Bool
  | .rawRead _ => true
  | .readConsole _ => true
  | .getConsoleInput _ => true
  | _ => false

inductive CompletionData where
  | empty
  | raw (bytes : List UInt8)
  | line (text : List Char32)
  | records (records : List InputRecord)
deriving DecidableEq, Repr

def statusSuccess : Nat := 0
def statusAlerted : Nat := 0x101
def statusInvalidParameter : Nat := 0xC000000D
def statusIllegalFunction : Nat := 0xC00000AF

/-- `CD_IO_COMPLETE`. -/
structure Completion where
  identifier : Nat
  status : Nat := statusSuccess
  data : CompletionData := .empty
deriving DecidableEq, Repr

/-- `io_msg`. READ_IO overwrites the descriptor and the body, and leaves the
completion of the last message in the buffer. -/
structure IoMsg where
  complete : Option Completion := none
  identifier : Nat := 0
  process : Nat := 0
  request : Request := .empty
deriving DecidableEq, Repr

/-- `prepare_completion`. -/
def IoMsg.prepareCompletion (msg : IoMsg) (status : Nat := statusSuccess) (data : CompletionData := .empty) : IoMsg :=
  { msg with complete := some { identifier := msg.identifier, status, data } }

/-- `raw_read_capacity`. -/
def IoMsg.rawReadCapacity (msg : IoMsg) : Nat :=
  match msg.request with
  | .rawRead outputSize => min outputSize bodySize
  | _ => 0

/-- `console_input_max_records`. -/
def GetConsoleInputMsg.maxRecords (r : GetConsoleInputMsg) : Nat := (r.outputSize - getConsoleInputSize) / inputRecordSize

/-! ## The terminal's input -/

/-- What a call finds in the pipe: how many of the coming bytes have arrived,
how many of corehost's own queries were answered before them, and whether the
terminal has closed the pipe behind the last byte. -/
structure Seen where
  count : Nat := 0
  answered : Nat := 0
  closed : Bool := false
deriving DecidableEq, Repr

/-- The pipe: the bytes that the terminal sends from now on, and what the next
calls find of them. -/
structure VtIn where
  bytes : List UInt8 := []
  seen : List Seen := []
deriving DecidableEq, Repr

inductive VtPipeReadStatus where
  | bytes (chunk : List UInt8)
  | empty
  | eof
deriving DecidableEq, Repr

namespace VtIn

/-- What the current call finds. -/
def current (v : VtIn) : Seen := v.seen.headD {}

/-- `peek_available`: the number of bytes, `none` when the pipe is closed. -/
def peekAvailable (v : VtIn) : Option Nat × VtIn :=
  let n := min v.current.count v.bytes.length
  (if n = 0 ∧ v.bytes = [] ∧ v.current.closed = true then none else some n, { v with seen := v.seen.tail })

/-- `read_available` with room for `room` bytes. The answers to corehost's own
cursor queries, which `take_resize_sync_replies` takes out of a chunk before
anything else sees it, are no part of `bytes`. -/
def readAvailable (v : VtIn) (room : Nat) : VtPipeReadStatus × VtIn :=
  let n := min room (min v.current.count v.bytes.length)
  if n = 0 then
    (if v.bytes = [] ∧ v.current.closed = true then .eof else .empty, { v with seen := v.seen.tail })
  else (.bytes (v.bytes.take n), { bytes := v.bytes.drop n, seen := v.seen.tail })

/-- `try_consume_byte`: takes the next byte when it has arrived and is the expected one. -/
def tryConsumeByte (v : VtIn) (expected : UInt8) : Bool × VtIn :=
  if v.current.count ≠ 0 ∧ v.bytes.head? = some expected then
    (true, { bytes := v.bytes.tail, seen := v.seen.tail })
  else (false, { v with seen := v.seen.tail })

end VtIn

/-! ## The cooked line -/

/-- `command_history_state`. -/
structure CommandHistory where
  commands : List (List Char32) := []
  capacity : Nat := 50
  browseIndex : Option Nat := none
  savedInput : List Char32 := []
deriving DecidableEq, Repr

namespace CommandHistory

def resetBrowse (h : CommandHistory) : CommandHistory := { h with browseIndex := none, savedInput := [] }

def breakBrowse (h : CommandHistory) : CommandHistory := if h.browseIndex.isSome then h.resetBrowse else h

def trimToCapacity (h : CommandHistory) : CommandHistory :=
  let h := { h with commands := h.commands.drop (h.commands.length - h.capacity) }
  match h.browseIndex with
  | some i => if i ≥ h.commands.length then h.resetBrowse else h
  | none => h

def push (h : CommandHistory) (command : List Char32) : CommandHistory :=
  if command.isEmpty ∨ h.commands.getLast? = some command then h
  else { h with commands := h.commands ++ [command] }.trimToCapacity

def browseUp (h : CommandHistory) (currentInput : List Char32) : Option (List Char32 × CommandHistory) :=
  if h.commands.isEmpty then none
  else
    let h :=
      match h.browseIndex with
      | none => { h with savedInput := currentInput, browseIndex := some (h.commands.length - 1) }
      | some i => { h with browseIndex := some (i - 1) }
    some (h.commands.getD (h.browseIndex.getD 0) [], h)

def browseDown (h : CommandHistory) : Option (List Char32 × CommandHistory) :=
  match h.browseIndex with
  | none => none
  | some i =>
    if i + 1 < h.commands.length then some (h.commands.getD (i + 1) [], { h with browseIndex := some (i + 1) })
    else some (h.savedInput, h.resetBrowse)

end CommandHistory

/-- `_cooked_buf`, `_cooked_cursor` and `_history`. -/
structure CookedLine where
  buf : List Char32 := []
  cursor : Nat := 0
  history : CommandHistory := {}
deriving DecidableEq, Repr

namespace CookedLine

def append (l : CookedLine) (ch : Char32) : CookedLine :=
  { l with buf := l.buf.take l.cursor ++ ch :: l.buf.drop l.cursor, cursor := l.cursor + 1 }

def clear (l : CookedLine) : CookedLine := { l with buf := [], cursor := 0 }

/-- `edit_insert_char` and `edit_insert_codepoint`, which echo differently. -/
def editInsert (l : CookedLine) (ch : Char32) : CookedLine := { l with history := l.history.breakBrowse }.append ch

def editBackspace (l : CookedLine) : CookedLine :=
  let l := { l with history := l.history.breakBrowse }
  if l.cursor = 0 then l else { l with buf := l.buf.eraseIdx (l.cursor - 1), cursor := l.cursor - 1 }

def editDelete (l : CookedLine) : CookedLine :=
  let l := { l with history := l.history.breakBrowse }
  if l.cursor ≥ l.buf.length then l else { l with buf := l.buf.eraseIdx l.cursor }

def editMoveLeft (l : CookedLine) : CookedLine := if l.cursor > 0 then { l with cursor := l.cursor - 1 } else l

def editMoveRight (l : CookedLine) : CookedLine :=
  if l.cursor < l.buf.length then { l with cursor := l.cursor + 1 } else l

def editHome (l : CookedLine) : CookedLine := { l with cursor := 0 }

def editEnd (l : CookedLine) : CookedLine := { l with cursor := l.buf.length }

def historyUp (l : CookedLine) : CookedLine :=
  match l.history.browseUp l.buf with
  | none => l
  | some (command, history) => { buf := command, cursor := command.length, history }

def historyDown (l : CookedLine) : CookedLine :=
  match l.history.browseDown with
  | none => l
  | some (command, history) => { buf := command, cursor := command.length, history }

end CookedLine

/-! ## The bridge -/

/-- One of the four message buffers of the I/O loop. -/
abbrev MsgRef := Fin 4

/-- `PendingKind`. -/
inductive PendingKind where
  | none | rawRead | consoleRead | consoleInput
deriving DecidableEq, Repr

/-- The request that the bridge holds: `_kind` and the pointer that goes with it. -/
inductive Pending where
  | none
  | rawRead (m : MsgRef)
  | consoleRead (m : MsgRef)
  | consoleInput (m : MsgRef)
deriving DecidableEq, Repr

def Pending.kind : Pending → PendingKind
  | .none => .none
  | .rawRead _ => .rawRead
  | .consoleRead _ => .consoleRead
  | .consoleInput _ => .consoleInput

def Pending.request? : Pending → Option MsgRef
  | .none => Option.none
  | .rawRead m => some m
  | .consoleRead m => some m
  | .consoleInput m => some m

/-- A piece of input: a terminal byte, or a key event out of the records. -/
inductive InputItem where
  | byte (byte : UInt8)
  | key (key : KeyEvent)
deriving DecidableEq, Repr

/-- What became of a piece of input. -/
structure Taken where
  /-- The read that it went to; without one it became a key event. -/
  reader : Option Nat
  item : InputItem
  /-- The input mode at that time. -/
  mode : Nat
  /-- Whether it ended a line, as CR or as LF. -/
  lineEnd : Option UInt8 := none
deriving DecidableEq, Repr

def Taken.byte? (t : Taken) : Option UInt8 :=
  match t.item with
  | .byte byte => some byte
  | .key _ => none

/-- The state in which the bridge starts on a chunk of input. -/
structure Round (δ : Type) where
  pending : Pending
  /-- A handler is serving a request. -/
  served : Bool
  /-- The chunk is the initial data of a ReadConsole. -/
  initial : Bool
  chunk : List UInt8
  /-- What the request has read before. -/
  count : Nat
  /-- What is left behind the chunk. -/
  queuedVtInput : List UInt8
  vtIn : VtIn
  utf8Decoder : δ
  inputParser : VtParser
  inputMode : Nat
  processControlZ : Bool

/-- The input side of `pipe_bridge`, with the message buffers and the requests
completed so far. -/
structure PipeBridge (δ : Type) where
  inp : List InputRecord := []
  inputMode : Nat := 0
  line : CookedLine := {}
  inputParser : VtParser := {}
  utf8Decoder : δ
  /-- The first `_read_total` bytes of `_readbuf`. -/
  readbuf : List UInt8 := []
  lineFound : Bool := false
  readAborted : Bool := false
  serving : Option MsgRef := none
  queuedVtInput : List UInt8 := []
  pending : Pending := .none
  processControlZ : Bool := false
  vtEof : Bool := false
  pendingInheritCursor : Bool := false
  resizeSyncOutstanding : Nat := 0
  vtIn : VtIn := {}
  msgs : MsgRef → IoMsg := fun _ => {}
  /-- The completions handed to ConDrv, in order. -/
  completed : List Completion := []
  /-- The reads that were dropped because their process left, what became of the
  input, and the chunks it came in: only statements about the bridge look at these. -/
  dropped : List Nat := []
  consumed : List Taken := []
  rounds : List (Round δ) := []

namespace PipeBridge

variable {δ : Type}

def hasPending (b : PipeBridge δ) : Bool := b.pending != .none

def pendingKind (b : PipeBridge δ) : PendingKind := b.pending.kind

/-- `should_exit`. -/
def shouldExit (b : PipeBridge δ) : Bool := b.vtEof && !b.hasPending

def setMsg (b : PipeBridge δ) (m : MsgRef) (msg : IoMsg) : PipeBridge δ :=
  { b with msgs := Function.update b.msgs m msg }

/-- The raw read or line read that input bytes go to. -/
def reader (b : PipeBridge δ) : Option Nat :=
  match b.pending with
  | .rawRead m => some (b.msgs m).identifier
  | .consoleRead m => some (b.msgs m).identifier
  | _ => none

def takeItem (b : PipeBridge δ) (item : InputItem) (lineEnd : Option UInt8 := none) : PipeBridge δ :=
  { b with consumed := b.consumed ++ [{ reader := b.reader, item, mode := b.inputMode, lineEnd }] }

def take (b : PipeBridge δ) (byte : UInt8) (lineEnd : Option UInt8 := none) : PipeBridge δ :=
  b.takeItem (.byte byte) lineEnd

/-- The round over `chunk`, of which `count` bytes of `_readbuf` are no part. -/
def round (b : PipeBridge δ) (count : Nat) (chunk : List UInt8) (initial : Bool) : Round δ where
  pending := b.pending
  served := b.serving.isSome
  initial := initial
  chunk := chunk
  count := count
  queuedVtInput := b.queuedVtInput
  vtIn := b.vtIn
  utf8Decoder := b.utf8Decoder
  inputParser := b.inputParser
  inputMode := b.inputMode
  processControlZ := b.processControlZ

def startRound (b : PipeBridge δ) (count : Nat) (chunk : List UInt8) (initial : Bool) : PipeBridge δ :=
  { b with rounds := b.rounds ++ [b.round count chunk initial] }

end PipeBridge

end Corehost
