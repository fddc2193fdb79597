import Corehost.Input.Process

/-!
# The handlers of the bridge

How `pipe_bridge.hpp` gets input from the queue and the pipe, the handlers of
the three read requests, and what it does between requests.
-/

namespace Corehost

/-- What the signal pipe holds when it is polled: whether it is closed, a new
size, and how many cursor queries its messages make corehost send. -/
structure Signal where
  closed : Bool := false
  resize : Option (Int × Int) := none
  cursorQueries : Nat := 0
deriving DecidableEq, Repr

/-- `vt_read_status`. -/
inductive VtReadStatus where
  | bytes | empty | eof | full
deriving DecidableEq, Repr

namespace PipeBridge

variable {δ : Type}

/-! ## Reading -/

/-- The number of bytes that the pending read can take. -/
def readLimit (b : PipeBridge δ) : Nat :=
  match b.pending with
  | .rawRead m => (b.msgs m).rawReadCapacity
  | _ => bodySize

def consumeQueuedVtInput (b : PipeBridge δ) (room : Nat) : PipeBridge δ :=
  { b with
    readbuf := b.readbuf ++ b.queuedVtInput.take room
    queuedVtInput := b.queuedVtInput.drop room }

/-- `read_available_vt_input`. `read_blocking_vt_input` differs from it only in
waiting for the bytes, and is the same function here: what a call finds is part
of `vtIn`. -/
def readAvailableVtInput (b : PipeBridge δ) : VtReadStatus × PipeBridge δ :=
  let room := b.readLimit - b.readbuf.length
  if room = 0 then (.full, b)
  else if b.queuedVtInput ≠ [] then (.bytes, b.consumeQueuedVtInput room)
  else
    let b' := { b with resizeSyncOutstanding := b.resizeSyncOutstanding - b.vtIn.current.answered }
    match b.vtIn.readAvailable room with
    | (.bytes chunk, vtIn) => (.bytes, { b' with readbuf := b.readbuf ++ chunk, vtIn })
    | (.empty, vtIn) => (.empty, { b' with vtIn })
    | (.eof, vtIn) => (.eof, { b' with vtIn })

def processNewVtInput (host : Host δ) (b : PipeBridge δ) (oldTotal : Nat) : PipeBridge δ :=
  { b with lineFound := false }.processInput host oldTotal (b.readbuf.drop oldTotal) false

/-- `accumulate_from_pipe`, for at most `n` rounds. Every round but the last
fills `_readbuf` with at least one byte. -/
def accumulateLoop (host : Host δ) : Nat → PipeBridge δ → Bool × PipeBridge δ
  | 0, b => (false, b)
  | n + 1, b =>
    match b.readAvailableVtInput with
    | (.empty, b) => (false, b)
    | (.eof, b) => (true, { b with vtEof := true }.completePending)
    | (.full, b) => (true, b.completePending)
    | (.bytes, b') =>
      let b := b'.processNewVtInput host b.readbuf.length
      if b.lineFound then (true, b) else accumulateLoop host n b

def accumulateFromPipe (host : Host δ) (b : PipeBridge δ) : Bool × PipeBridge δ := b.accumulateLoop host (bodySize + 1)

/-- `drain_available_vt_input`: whether the state has changed. -/
def drainAvailableVtInput (host : Host δ) (b : PipeBridge δ) : Bool × PipeBridge δ :=
  match b.readAvailableVtInput with
  | (.bytes, b') => (true, b'.processNewVtInput host b.readbuf.length)
  | (.empty, b) => (false, b)
  | (.eof, b) => (true, b.completePendingWithEof)
  | (.full, b) => (true, b.completePending)

/-- `queue_available_vt_input`. -/
def queueAvailableVtInput (b : PipeBridge δ) : Bool × PipeBridge δ :=
  let b' := { b with resizeSyncOutstanding := b.resizeSyncOutstanding - b.vtIn.current.answered }
  match b.vtIn.readAvailable bodySize with
  | (.bytes chunk, vtIn) => (true, { b' with queuedVtInput := b.queuedVtInput ++ chunk, vtIn })
  | (.empty, vtIn) => (false, { b' with vtIn })
  | (.eof, vtIn) => (false, { b' with vtIn, vtEof := true })

/-! ## Handlers -/

/-- `serving_guard`: the request is being served while `f` runs. -/
def whileServing {α : Type} (b : PipeBridge δ) (m : MsgRef) (f : PipeBridge δ → α × PipeBridge δ) : α × PipeBridge δ :=
  let (a, b) := f { b with serving := some m }
  (a, { b with serving := none })

/-- A handler fills in the completion of its own message. -/
def prepare (b : PipeBridge δ) (m : MsgRef) (status : Nat := statusSuccess) (data : CompletionData := .empty) :
    PipeBridge δ :=
  b.setMsg m ((b.msgs m).prepareCompletion status data)

def handleRawRead (host : Host δ) (b : PipeBridge δ) (m : MsgRef) : Bool × PipeBridge δ :=
  b.whileServing m fun b =>
    if b.vtEof then (true, b.prepare m)
    else
      { b with
        pending := .rawRead m
        processControlZ := hasFlag b.inputMode ENABLE_PROCESSED_INPUT
        readbuf := []
        lineFound := false }.accumulateFromPipe host

/-- The initial data of a ReadConsole goes through `process_input` like typed
characters, but it is not the terminal's. -/
def processInitialData (host : Host δ) (b : PipeBridge δ) (initData : List UInt8) : PipeBridge δ :=
  { { b with readbuf := initData }.processInput host 0 initData true with consumed := b.consumed }

def handleConsoleRead (host : Host δ) (b : PipeBridge δ) (m : MsgRef) (procZ : Bool) (initData : List UInt8) :
    Bool × PipeBridge δ :=
  b.whileServing m fun b =>
    if b.vtEof then (true, b.prepare m)
    else
      let b := { b with
        pending := .consoleRead m
        processControlZ := procZ
        readbuf := []
        lineFound := false
        line := { buf := [], cursor := 0, history := b.line.history.resetBrowse } }
      let initData := initData.take bodySize
      let b := if initData ≠ [] then b.processInitialData host initData else b
      let (done, b) := b.consumeInputBufferForConsoleRead
      if done then (true, b) else b.accumulateFromPipe host

/-- The loop of `prepare_console_input_events`, for at most `n` rounds. -/
def prepareEventsLoop (host : Host δ) : Nat → PipeBridge δ → PipeBridge δ
  | 0, b => b
  | n + 1, b =>
    if b.vtEof then b
    else
      let b := { b with readbuf := [] }
      if b.queuedVtInput ≠ [] then prepareEventsLoop host n (b.drainAvailableVtInput host).2
      else
        match b.vtIn.peekAvailable with
        | (none, vtIn) => { b with vtIn, vtEof := true }
        | (some 0, vtIn) => { b with vtIn }
        | (some _, vtIn) =>
          let (more, b) := { b with vtIn }.queueAvailableVtInput
          if more then prepareEventsLoop host n b else b

/-- `prepare_console_input_events`. Every round of the loop moves a byte from
the pipe to the queue or from the queue to the events. -/
def prepareConsoleInputEvents (host : Host δ) (b : PipeBridge δ) : PipeBridge δ :=
  if b.hasPending then b else b.prepareEventsLoop host (2 * b.vtIn.bytes.length + b.queuedVtInput.length + 1)

def handleConsoleInput (host : Host δ) (b : PipeBridge δ) (m : MsgRef) (r : GetConsoleInputMsg) :
    Bool × PipeBridge δ :=
  b.whileServing m fun b =>
    let b := b.prepareConsoleInputEvents host
    if hasFlag r.flags 0xFFFC then (true, b.prepare m statusInvalidParameter)
    else if r.maxRecords = 0 then (true, b.prepare m statusSuccess (.records []))
    else if b.inp = [] ∧ hasFlag r.flags CONSOLE_READ_NOWAIT = false then (false, { b with pending := .consoleInput m })
    else
      let records := b.inp.take r.maxRecords
      let inp := if hasFlag r.flags CONSOLE_READ_NOREMOVE then b.inp else b.inp.drop r.maxRecords
      (true, { b with inp }.prepare m statusSuccess (.records records))

/-- `message_output_tail_capacity` for ReadConsole. -/
def ReadConsoleMsg.tailCapacity (r : ReadConsoleMsg) : Nat :=
  let localCapacity := bodySize - (messageHeaderSize + readConsoleSize)
  if r.outputSize = 0 then localCapacity
  else if r.outputSize > readConsoleSize then min (r.outputSize - readConsoleSize) localCapacity
  else 0

/-- `api_read_console`. -/
def apiReadConsole (host : Host δ) (b : PipeBridge δ) (m : MsgRef) (r : ReadConsoleMsg) : Bool × PipeBridge δ :=
  if r.inputSize < messageHeaderSize + readConsoleSize then (true, b.prepare m statusInvalidParameter)
  else
    let procZ := r.processControlZ && hasFlag b.inputMode ENABLE_PROCESSED_INPUT
    if r.initialNumBytes = 0 then b.handleConsoleRead host m procZ []
    else if r.initialNumBytes > ReadConsoleMsg.tailCapacity r then (true, b.prepare m statusInvalidParameter)
    else if r.unicode = false then (true, b.prepare m statusInvalidParameter)
    else
      let inputPayload := r.inputSize - messageHeaderSize - readConsoleSize
      let exeBytes := r.exeNameLength * 2
      if exeBytes > inputPayload then (true, b.prepare m statusInvalidParameter)
      else
        -- `InputSize` bounds the read, and it may reach beyond `io_msg::body`.
        b.handleConsoleRead host m procZ
          (((r.body ++ r.behind).drop exeBytes).take (min r.initialNumBytes (inputPayload - exeBytes)))

/-! ## Between requests -/

/-- `poll_signal_closed`. A new size is an input record for the clients that
asked for it. -/
def pollSignalClosed (b : PipeBridge δ) (signal : Signal) : Bool × PipeBridge δ :=
  let b :=
    match signal.resize with
    | some (x, y) => if hasFlag b.inputMode ENABLE_WINDOW_INPUT then b.emitRecord (.windowBufferSize x y) else b
    | none => b
  (signal.closed, { b with resizeSyncOutstanding := b.resizeSyncOutstanding + signal.cursorQueries })

def onIdle (host : Host δ) (b : PipeBridge δ) (signal : Signal) : PipeBridge δ :=
  if b.vtEof then b
  else
    let (closed, b) := b.pollSignalClosed signal
    if closed then { b with vtEof := true }.completePending
    else
      match b.vtIn.peekAvailable with
      | (none, vtIn) => { b with vtIn, vtEof := true }.completePending
      | (some 0, vtIn) => { b with vtIn }
      | (some _, vtIn) =>
        let b := { b with vtIn }
        if b.hasPending = false then (b.drainAvailableVtInput host).2 else (b.accumulateFromPipe host).2

/-- `wait_for_pending_vt_input`. The read that blocks is `drainAvailableVtInput`
again, with what arrives while it waits. -/
def waitForPendingVtInput (host : Host δ) (b : PipeBridge δ) (signal : Signal) : PipeBridge δ :=
  if b.vtEof ∨ b.hasPending = false then b
  else
    let (changed, b) := b.drainAvailableVtInput host
    if changed then b
    else
      let (closed, b) := b.pollSignalClosed signal
      if closed then b.completePendingWithEof else (b.drainAvailableVtInput host).2

def onConsoleInputWritten (b : PipeBridge δ) : PipeBridge δ :=
  match b.pending with
  | .consoleInput _ => b.completePendingConsoleInput
  | .consoleRead _ => b.consumeInputBufferForConsoleRead.2
  | _ => b

def dropPendingReadOf (b : PipeBridge δ) (process : Nat) : PipeBridge δ :=
  match b.pending.request? with
  | none => b
  | some m =>
    if (b.msgs m).process ≠ process then b
    else
      { b with
        pending := .none
        processControlZ := false
        readbuf := []
        lineFound := false
        line := { buf := [], cursor := 0, history := b.line.history.resetBrowse }
        inputParser := { b.inputParser with raw := [] }
        dropped := b.dropped ++ [(b.msgs m).identifier] }

/-! ## The router -/

/-- `may_wait_for_input`. -/
def mayWaitForInput (msg : IoMsg) : Bool :=
  match msg.request with
  | .rawRead _ => true
  | .readConsole _ => true
  | .getConsoleInput r =>
    r.inputSize < messageHeaderSize + getConsoleInputSize || !hasFlag r.flags CONSOLE_READ_NOWAIT
  | _ => false

/-- `on_message` for the message in buffer `m`: whether its completion is
prepared, or the bridge keeps it. -/
def onMessage (host : Host δ) (b : PipeBridge δ) (m : MsgRef) : Bool × PipeBridge δ :=
  match (b.msgs m).request with
  | .rawRead _ => b.handleRawRead host m
  | .readConsole r =>
    if r.inputSize < messageHeaderSize + readConsoleSize then (true, b.prepare m statusIllegalFunction)
    else b.apiReadConsole host m r
  | .getConsoleInput r =>
    if r.inputSize < messageHeaderSize + getConsoleInputSize then (true, b.prepare m statusIllegalFunction)
    else b.handleConsoleInput host m r
  | .getNumberOfInputEvents => (true, (b.prepareConsoleInputEvents host).prepare m)
  | .writeConsoleInput append records =>
    let written := min records.length (maxEvents - b.inp.length)
    let inp := if append then inputWrite b.inp records else inputPrepend b.inp records
    let b := { b with inp }.prepare m
    (true, if written > 0 then b.onConsoleInputWritten else b)
  | .flushInput => (true, { b with inp := [] }.prepare m)
  | .setInputMode mode => (true, { b with inputMode := mode }.prepare m)
  | .output responses cursorQueries =>
    let b := b.emitRawSequenceAsInput host responses
    (true, { b with resizeSyncOutstanding := b.resizeSyncOutstanding + cursorQueries }.prepare m)
  | .disconnect => (true, (b.dropPendingReadOf (b.msgs m).process).prepare m)
  | _ => (true, b.prepare m)

end PipeBridge

end Corehost
