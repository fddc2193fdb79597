import Corehost.Input.Bridge

/-!
# The I/O loop

The model of `run_io_loop_no_setup` (`io_loop.hpp`). A step is the part of the
loop between two calls into the bridge; `Pc` says which part comes next. What
the step does not decide itself is its input: what the calls find in the pipes,
what READ_IO returns and whether a handler has left output for the terminal.
-/

namespace Corehost

/-- The place in the loop. -/
inductive Pc where
  /-- The start of an iteration: a deferred read is dispatched. -/
  | top
  /-- Terminal input is served before READ_IO. -/
  | idle
  /-- READ_IO, which submits the completion of `prevDone`. -/
  | read
  /-- READ_IO has returned no message. -/
  | noMessage
  /-- The message in `cur` is routed. -/
  | route
  /-- The message in `cur` was completed explicitly, after its output. -/
  | flushed
  /-- A third read in `cur` waits for the bridge. -/
  | serve
  | exit
  /-- The loop has ended while a third read was waiting in `cur`. -/
  | exitServing
deriving DecidableEq, Repr

/-- `read_io_result`. -/
inductive ReadIo where
  | noMessage
  | disconnected
  | message (process : Nat) (request : Request)
deriving DecidableEq, Repr

structure LoopInput where
  seen : List Seen := []
  signal : Signal := {}
  readIo : ReadIo := .noMessage
  /-- `has_buffered_vt_output` after the handler. -/
  vtOutput : Bool := false
  /-- The first CONNECT is completed explicitly. -/
  firstConnect : Bool := false
deriving DecidableEq, Repr

structure IoLoop (δ : Type) where
  bridge : PipeBridge δ
  pc : Pc := .top
  cur : MsgRef := 0
  prevDone : Option MsgRef := none
  pendingMsg : Option MsgRef := none
  deferredMsg : Option MsgRef := none
  /-- The messages that READ_IO has returned. Their identifiers are their numbers. -/
  received : List IoMsg := []

namespace IoLoop

variable {δ : Type}

/-- `next_free`. -/
def nextFree (s : IoLoop δ) : MsgRef :=
  ([0, 1, 2, 3].find? fun m => some m ≠ s.prevDone ∧ some m ≠ s.pendingMsg ∧ some m ≠ s.deferredMsg).getD 0

/-- `complete_io(server, m->complete)`. -/
def completeIo (s : IoLoop δ) (m : MsgRef) : IoLoop δ :=
  { s with bridge := { s.bridge with completed := s.bridge.completed ++ (s.bridge.msgs m).complete.toList } }

def forgetPending (s : IoLoop δ) : IoLoop δ := if s.bridge.hasPending then s else { s with pendingMsg := none }

/-- `if (router.should_exit()) break;` -/
def exitOr (s : IoLoop δ) (pc : Pc) : IoLoop δ := { s with pc := if s.bridge.shouldExit then .exit else pc }

def onIdle (host : Host δ) (s : IoLoop δ) (i : LoopInput) : IoLoop δ :=
  { s with bridge := s.bridge.onIdle host i.signal }

/-- The deferred read is dispatched. -/
def dispatchDeferred (host : Host δ) (s : IoLoop δ) (m : MsgRef) : IoLoop δ :=
  let (done, bridge) := s.bridge.onMessage host m
  let s := { s with bridge, deferredMsg := none }
  if done then s.completeIo m else { s with pendingMsg := some m }

def top (host : Host δ) (s : IoLoop δ) : IoLoop δ :=
  let s := s.forgetPending
  match s.deferredMsg with
  | some m => if s.bridge.hasPending then { s with pc := .idle } else (s.dispatchDeferred host m).exitOr .idle
  | none => { s with pc := .idle }

def idle (host : Host δ) (s : IoLoop δ) (i : LoopInput) : IoLoop δ :=
  if s.bridge.hasPending then ((s.onIdle host i).exitOr .read).forgetPending
  else if s.prevDone = none then (s.onIdle host i).exitOr .read
  else { s with pc := .read }

/-- READ_IO takes the completion of `prevDone`, and clears the descriptor in `cur`. -/
def submit (s : IoLoop δ) : IoLoop δ :=
  let s := match s.prevDone with
    | some m => s.completeIo m
    | none => s
  { s with
    prevDone := none
    bridge := s.bridge.setMsg s.cur { complete := (s.bridge.msgs s.cur).complete } }

/-- READ_IO fills the buffer `cur`. -/
def receive (s : IoLoop δ) (process : Nat) (request : Request) : IoLoop δ :=
  let msg : IoMsg := { s.bridge.msgs s.cur with identifier := s.received.length + 1, process, request }
  { s with bridge := s.bridge.setMsg s.cur msg, received := s.received ++ [msg], pc := .route }

def read (s : IoLoop δ) (i : LoopInput) : IoLoop δ :=
  match i.readIo with
  | .disconnected => { s with pc := .exit }
  | .noMessage => { s.submit with pc := .noMessage }
  | .message process request => s.submit.receive process request

/-- The message in `cur` goes to the router. -/
def dispatch (host : Host δ) (s : IoLoop δ) (i : LoopInput) : IoLoop δ :=
  let (done, bridge) := s.bridge.onMessage host s.cur
  let s := { s with bridge }
  if done then
    if i.vtOutput then { s.completeIo s.cur with prevDone := none, pc := .flushed }
    else if s.bridge.shouldExit then { s.completeIo s.cur with pc := .exit }
    else
      let s := { s with prevDone := some s.cur }
      { s with cur := s.nextFree, pc := .top }
  else
    let s := { s with pendingMsg := some s.cur }
    if s.bridge.shouldExit then { s with pc := .exit } else { s with cur := s.nextFree, pc := .top }

/-- CONNECT: `prepare` is what `handle_connect` or `accept_connection` fills in. -/
def connect (s : IoLoop δ) (i : LoopInput) : IoLoop δ :=
  let s := { s with bridge := s.bridge.prepare s.cur }
  let s := if i.firstConnect then { s.completeIo s.cur with prevDone := none } else { s with prevDone := some s.cur }
  { s with cur := s.nextFree, pc := .top }

def route (host : Host δ) (s : IoLoop δ) (i : LoopInput) : IoLoop δ :=
  match (s.bridge.msgs s.cur).request with
  | .empty => (s.onIdle host i).exitOr .top
  | .connect => s.connect i
  | _ =>
    if s.bridge.hasPending ∧ PipeBridge.mayWaitForInput (s.bridge.msgs s.cur) then
      if s.deferredMsg = none then
        let s := { s with deferredMsg := some s.cur }
        { s with cur := s.nextFree, pc := .top }
      else { s with pc := .serve }
    else s.dispatch host i

def serve (host : Host δ) (s : IoLoop δ) (i : LoopInput) : IoLoop δ :=
  if s.bridge.hasPending then { s with bridge := s.bridge.waitForPendingVtInput host i.signal }
  else
    let s := { s with pendingMsg := none }
    if s.bridge.shouldExit then { s with pc := .exitServing }
    else
      match s.deferredMsg with
      | some m => s.dispatchDeferred host m
      | none => s.dispatch host i

def step (host : Host δ) (s : IoLoop δ) (i : LoopInput) : IoLoop δ :=
  let s := { s with bridge := { s.bridge with vtIn := { s.bridge.vtIn with seen := i.seen } } }
  match s.pc with
  | .top => s.top host
  | .idle => s.idle host i
  | .read => s.read i
  | .noMessage => (s.onIdle host i).exitOr .top
  | .route => s.route host i
  | .flushed =>
    let s := (s.onIdle host i).exitOr .top
    { s with cur := s.nextFree }
  | .serve => s.serve host i
  | .exit => s
  | .exitServing => s

def run (host : Host δ) (s : IoLoop δ) (inputs : List LoopInput) : IoLoop δ := inputs.foldl (step host) s

/-- The start of a session whose terminal sends `bytes`. -/
def initial (d : δ) (inputMode : Nat) (bytes : List UInt8) : IoLoop δ :=
  { bridge := { utf8Decoder := d, inputMode, vtIn := { bytes } } }

end IoLoop

end Corehost
