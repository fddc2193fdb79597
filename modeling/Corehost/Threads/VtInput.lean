import Corehost.Lib.Runs
import Mathlib.Algebra.Group.Nat.Defs
import Mathlib.Data.List.Basic
import Mathlib.Tactic.Common

/-!
# The thread that reads the terminal

The terminal's input pipe has a thread of its own, which waits in `ReadFile` and
puts what it gets into a queue: the model of `reader_main`, `take_queued`,
`try_consume_byte` and `stop_reader` (`pipe_bridge_io.hpp`). The I/O loop takes
from the queue between two calls of READ_IO. While it waits in one,
`idle_input_waker` (`io_loop.hpp`) cancels that call when there is input. What a
thread does while it holds a lock is one step.

* `readerMoves`: what a step of the reader can do, by where it is;
* `vt_input_sound`: in any order of the steps of the terminal, the reader, the
  loop and the waker, no byte is taken twice or out of order and none is lost
  until the reader is stopped, the queue is bounded, the end of the input is
  reported after its last byte, only READ_IO is cancelled, and the next tick ends
  one that waits while bytes are queued;
* `stop_reader_ends`: `stop_reader` returns, whatever the reader was doing.
-/

namespace Corehost

open Lib

/-! ## The queue -/

/-- `reader_state`. `notify` says whether the reader still calls back. -/
structure ReaderState where
  bytes : List UInt8 := []
  head : Nat := 0
  eof : Bool := false
  stop : Bool := false
  notify : Bool := true
deriving DecidableEq, Repr

/-- What `read_some` returns. -/
inductive ReadSome where
  | success (chunk : List UInt8)
  | empty
  | closed
deriving DecidableEq, Repr

/-- `vt_pipe_read_status`, with the bytes. -/
inductive VtPipeRead where
  | bytes (taken : List UInt8)
  | empty
  | eof
deriving DecidableEq, Repr

def ReadSome.toList : ReadSome → List UInt8
  | .success chunk => chunk
  | .empty | .closed => []

def VtPipeRead.toList : VtPipeRead → List UInt8
  | .bytes taken => taken
  | .empty | .eof => []

namespace ReaderState

def maxQueuedBytes : Nat := 2 ^ 20

def queued (r : ReaderState) : Nat := r.bytes.length - r.head

/-- The bytes that nobody has taken. -/
def unread (r : ReaderState) : List UInt8 := r.bytes.drop r.head

/-- The locked section of `reader_main` behind `ReadFile`, when the reader goes on. -/
def append (r : ReaderState) : ReadSome → ReaderState
  | .success chunk =>
    let r := if r.head ≠ 0 ∧ r.head = r.bytes.length then { r with bytes := [], head := 0 } else r
    { r with bytes := r.bytes ++ chunk }
  | .empty => r
  | .closed => { r with eof := true }

/-- `take_queued`, with room for `size` bytes. -/
def takeQueued (r : ReaderState) (size : Nat) : VtPipeRead × ReaderState :=
  let n := min r.queued size
  if n = 0 then (if r.eof then .eof else .empty, r)
  else
    let taken := (r.bytes.drop r.head).take n
    let r := { r with head := r.head + n }
    (.bytes taken, if r.head = r.bytes.length then { r with bytes := [], head := 0 } else r)

/-- `try_consume_byte`. -/
def tryConsumeByte (r : ReaderState) (expected : UInt8) : Option UInt8 × ReaderState :=
  if r.queued = 0 ∨ r.bytes[r.head]? ≠ some expected then (none, r)
  else (some expected, { r with head := r.head + 1 })

end ReaderState

/-! ## The threads -/

/-- Where the reader is. -/
inductive ReaderAt where
  /-- It waits for room in the queue. -/
  | space
  /-- The queue is unlocked, and `ReadFile` comes next. -/
  | calling
  /-- In `ReadFile`. -/
  | reading
  /-- `ReadFile` has returned. -/
  | read (result : ReadSome)
  /-- The queue is unlocked again, and `notify` was read. -/
  | notifying (notify eof : Bool)
  | exited
deriving DecidableEq, Repr

/-- Where the I/O loop is. -/
inductive LoopAt where
  /-- `vt_input_reader_scope` has started the reader, and `use_reader(true)` comes next. -/
  | starting
  /-- Between two calls of `DeviceIoControl`. -/
  | outside
  /-- In a `DeviceIoControl` that is not READ_IO. -/
  | request
  /-- Such a call was cancelled. -/
  | requestAborted
  /-- Behind `enter_read`. -/
  | entered
  /-- In READ_IO. -/
  | inReadIo
  /-- READ_IO has returned, and whether it was cancelled. `leave_read` comes next. -/
  | back (aborted : Bool)
  /-- `~vt_input_reader_scope`, behind `use_reader(false)`. -/
  | leaving
  /-- In the loop of `stop_reader`. -/
  | stopping
  | stopped
deriving DecidableEq, Repr

/-- The pipe, the queue, the reader, the waker and the loop. `written` and
`taken` are all bytes that the terminal has written and that the loop has taken. -/
structure VtInput where
  pipe : List UInt8 := []
  terminal : Bool := true
  reader : ReaderState := {}
  readerAt : ReaderAt := .space
  loopAt : LoopAt := .starting
  /-- `_in_read` and `_reader` of `idle_input_waker`. -/
  inRead : Bool := false
  useReader : Bool := false
  written : List UInt8 := []
  taken : List UInt8 := []
deriving DecidableEq, Repr

inductive VtInputEvent where
  /-- The terminal writes, or closes the pipe. -/
  | type (bytes : List UInt8)
  | hangUp
  /-- The reader finds room or is told to stop. -/
  | space
  /-- The reader calls `ReadFile`. -/
  | call
  /-- `ReadFile` returns `n` bytes, nothing, or that the pipe is closed. -/
  | readFile (n : Nat)
  | readEmpty
  | readClosed
  /-- The reader locks the queue and puts in what it has read. -/
  | lock
  /-- The reader calls `notify`, which is `nudge`. -/
  | notify
  | useReader
  /-- The loop takes bytes, when it has room for some. -/
  | take (size : Nat)
  | consume (expected : UInt8)
  /-- A `DeviceIoControl` that is not READ_IO. -/
  | request
  | requestDone
  | enterRead
  | readIo
  /-- READ_IO returns a message. -/
  | message
  | leaveRead
  /-- `run` of the waker, ten milliseconds later. -/
  | tick (signal : Bool)
  /-- `use_reader(false)`. -/
  | dropReader
  /-- The locked section of `stop_reader`. -/
  | stop
  /-- `CancelSynchronousIo` in `stop_reader`. -/
  | cancelReader
  /-- `stop_reader` finds that the thread has ended. -/
  | stopped
deriving DecidableEq, Repr

namespace VtInput

/-- `CancelIoEx`: it ends a `DeviceIoControl` of the loop if it is in one. -/
def cancelIoEx (s : VtInput) : VtInput :=
  match s.loopAt with
  | .inReadIo => { s with loopAt := .back true }
  | .request => { s with loopAt := .requestAborted }
  | _ => s

/-- `input_waiting`. -/
def inputWaiting (s : VtInput) : Bool := if s.useReader then s.reader.queued ≠ 0 else !s.pipe.isEmpty

def nudge (s : VtInput) : VtInput := if s.inRead then s.cancelIoEx else s

def tick (s : VtInput) (signal : Bool) : VtInput :=
  if !s.inRead then s
  else if !signal && !s.inputWaiting then s
  else s.cancelIoEx

/-- What the reader does next. -/
def readerStep (s : VtInput) : VtInputEvent → Option VtInput
  | .space =>
    if s.readerAt = .space ∧ (s.reader.stop ∨ s.reader.queued < ReaderState.maxQueuedBytes) then
      some { s with readerAt := if s.reader.stop then .exited else .calling }
    else none
  | .call => if s.readerAt = .calling then some { s with readerAt := .reading } else none
  | .readFile n =>
    if s.readerAt = .reading ∧ 0 < n ∧ n ≤ 4096 ∧ n ≤ s.pipe.length then
      some { s with readerAt := .read (.success (s.pipe.take n)), pipe := s.pipe.drop n }
    else none
  | .readEmpty => if s.readerAt = .reading then some { s with readerAt := .read .empty } else none
  | .readClosed =>
    if s.readerAt = .reading ∧ s.terminal = false ∧ s.pipe = [] then some { s with readerAt := .read .closed } else none
  | .lock =>
    match s.readerAt with
    | .read result =>
      if s.reader.stop then some { s with readerAt := .exited }
      else some { s with reader := s.reader.append result, readerAt := .notifying s.reader.notify (result = .closed) }
    | _ => none
  | .notify =>
    match s.readerAt with
    | .notifying notify eof => some { (if notify then s.nudge else s) with readerAt := if eof then .exited else .space }
    | _ => none
  | _ => none

/-- What the loop does next. -/
def loopStep (s : VtInput) (e : VtInputEvent) : Option VtInput :=
  match s.loopAt with
  | .starting => if e = .useReader then some { s with loopAt := .outside, useReader := true } else none
  | .outside =>
    match e with
    | .take size =>
      if size = 0 then none
      else
        let (result, reader) := s.reader.takeQueued size
        some { s with reader, taken := s.taken ++ result.toList }
    | .consume expected =>
      let (result, reader) := s.reader.tryConsumeByte expected
      some { s with reader, taken := s.taken ++ result.toList }
    | .request => some { s with loopAt := .request }
    | .enterRead => some { s with loopAt := .entered, inRead := true }
    | .dropReader => some { s with loopAt := .leaving, useReader := false }
    | _ => none
  | .request => if e = .requestDone then some { s with loopAt := .outside } else none
  | .requestAborted => none
  | .entered => if e = .readIo then some { s with loopAt := .inReadIo } else none
  | .inReadIo => if e = .message then some { s with loopAt := .back false } else none
  | .back _ => if e = .leaveRead then some { s with loopAt := .outside, inRead := false } else none
  | .leaving =>
    if e = .stop then some { s with loopAt := .stopping, reader := { s.reader with stop := true, notify := false } } else none
  | .stopping =>
    -- A cancel that comes before `ReadFile` has started misses.
    if e = .cancelReader then if s.readerAt = .reading then some { s with readerAt := .read .closed } else some s
    else if e = .stopped ∧ s.readerAt = .exited then some { s with loopAt := .stopped }
    else none
  | .stopped => none

def step (s : VtInput) (e : VtInputEvent) : Option VtInput :=
  match e with
  | .type bytes => if s.terminal then some { s with pipe := s.pipe ++ bytes, written := s.written ++ bytes } else none
  | .hangUp => some { s with terminal := false }
  | .tick signal => some (s.tick signal)
  | .space | .call | .readFile _ | .readEmpty | .readClosed | .lock | .notify => s.readerStep e
  | _ => s.loopStep e

end VtInput

/-! ## The queue as a list of bytes -/

namespace ReaderState

variable {r : ReaderState}

theorem length_unread (r : ReaderState) : r.unread.length = r.queued := List.length_drop

theorem unread_append (h : r.head ≤ r.bytes.length) (result : ReadSome) :
    (r.append result).head ≤ (r.append result).bytes.length ∧
      (r.append result).unread = r.unread ++ result.toList := by
  cases result with
  | success chunk =>
    unfold append
    dsimp only
    split_ifs with hall
    · refine ⟨Nat.zero_le _, ?_⟩
      simp [unread, hall.2, ReadSome.toList]
    · exact ⟨by rw [List.length_append]; omega, List.drop_append_of_le_length h⟩
  | empty => exact ⟨h, (List.append_nil _).symm⟩
  | closed => exact ⟨h, (List.append_nil _).symm⟩

theorem takeQueued_spec (h : r.head ≤ r.bytes.length) (size : Nat) :
    let (result, r') := r.takeQueued size
    r'.head ≤ r'.bytes.length ∧ result.toList ++ r'.unread = r.unread ∧
      (r'.eof, r'.stop, r'.notify) = (r.eof, r.stop, r.notify) ∧
      (0 < size → result = .eof → r.eof = true ∧ r.unread = []) := by
  have hlen := r.length_unread
  unfold takeQueued
  dsimp only
  by_cases hn : min r.queued size = 0
  · rw [if_pos hn]
    refine ⟨h, ?_, rfl, fun hsize heof => ?_⟩
    · cases r.eof <;> rfl
    · refine ⟨by cases hr : r.eof <;> simp_all, List.length_eq_zero_iff.mp (by omega)⟩
  · rw [if_neg hn]
    have hsplit : r.unread.take (min r.queued size) ++ r.bytes.drop (r.head + min r.queued size) = r.unread := by
      rw [← List.drop_drop]
      exact List.take_append_drop ..
    have hq : r.queued = r.bytes.length - r.head := rfl
    by_cases hall : r.head + min r.queued size = r.bytes.length
    · rw [if_pos hall]
      rw [hall, List.drop_length] at hsplit
      exact ⟨Nat.le_refl 0, hsplit, rfl, fun _ h => absurd h (by simp)⟩
    · rw [if_neg hall]
      exact ⟨by dsimp only; omega, hsplit, rfl, fun _ h => absurd h (by simp)⟩

theorem tryConsumeByte_spec (h : r.head ≤ r.bytes.length) (expected : UInt8) :
    let (result, r') := r.tryConsumeByte expected
    r'.head ≤ r'.bytes.length ∧ result.toList ++ r'.unread = r.unread ∧
      (r'.eof, r'.stop, r'.notify) = (r.eof, r.stop, r.notify) := by
  have hlen := r.length_unread
  have hq : r.queued = r.bytes.length - r.head := rfl
  unfold tryConsumeByte
  by_cases hnone : r.queued = 0 ∨ r.bytes[r.head]? ≠ some expected
  · rw [if_pos hnone]
    exact ⟨h, rfl, rfl⟩
  · rw [if_neg hnone]
    obtain ⟨hne, hbyte⟩ := not_or.mp hnone
    refine ⟨by dsimp only; omega, ?_, rfl⟩
    obtain ⟨hlt, hget⟩ := List.getElem?_eq_some_iff.mp (not_not.mp hbyte)
    unfold unread
    rw [List.drop_eq_getElem_cons hlt, hget]
    rfl

end ReaderState

/-! ## Every order of the steps -/

namespace VtInput

/-- The reader has found room, and has not put anything in since. -/
def hasRoom (s : VtInput) : Bool :=
  match s.readerAt with
  | .calling | .reading | .read _ => true
  | _ => false

/-- The bytes that the reader has in its hand. -/
def hand (s : VtInput) : List UInt8 :=
  match s.readerAt with
  | .read (.success chunk) => chunk
  | _ => []

/-- The loop is between `enter_read` and `leave_read`. -/
def inside (s : VtInput) : Bool :=
  match s.loopAt with
  | .entered | .inReadIo | .back _ => true
  | _ => false

/-- The loop runs, with the reader's queue. -/
def running (s : VtInput) : Bool :=
  match s.loopAt with
  | .outside | .request | .entered | .inReadIo | .back _ => true
  | _ => false

/-- What holds in every state. -/
structure Sound (s : VtInput) : Prop where
  /-- Until the reader is stopped no byte is lost, and never is one taken twice or out of order. -/
  order : ∃ rest, s.written = s.taken ++ s.reader.unread ++ rest ∧ (s.reader.stop = false → rest = s.hand ++ s.pipe)
  bounded : s.reader.queued < ReaderState.maxQueuedBytes + 4096
  /-- When the end of the input is reported, everything that was written was taken. -/
  ended : ∀ size, 0 < size → (s.reader.takeQueued size).1 = .eof → s.taken = s.written
  cancels : s.loopAt ≠ .requestAborted
  /-- Bytes that wait end READ_IO, with the next tick at the latest. -/
  wakes : s.loopAt = .inReadIo → s.reader.queued ≠ 0 → ∀ signal, (s.tick signal).loopAt = .back true
  /-- No callback after `stop_reader` has returned. -/
  silent : s.loopAt = .stopped → s.readerAt = .exited

/-- What the steps keep of the pipe and the queue. -/
structure QueueInv (s : VtInput) : Prop where
  head : s.reader.head ≤ s.reader.bytes.length
  order : ∃ rest, s.written = s.taken ++ s.reader.unread ++ rest ∧ (s.reader.stop = false → rest = s.hand ++ s.pipe)
  room : s.hasRoom = true → s.reader.queued < ReaderState.maxQueuedBytes
  chunk : s.hand.length ≤ 4096
  bounded : s.reader.queued < ReaderState.maxQueuedBytes + 4096
  closed : s.readerAt = .read .closed → s.reader.stop = false → s.terminal = false ∧ s.pipe = []
  eof : s.reader.eof = true → s.terminal = false ∧ s.written = s.taken ++ s.reader.unread ∧
    ((∃ notify, s.readerAt = .notifying notify true) ∨ s.readerAt = .exited)

/-- What the steps keep of the loop and the waker. -/
structure LoopInv (s : VtInput) : Prop where
  inRead : s.inRead = s.inside
  useReader : s.useReader = s.running
  cancels : s.loopAt ≠ .requestAborted
  stop : s.reader.stop = true ↔ s.loopAt = .stopping ∨ s.loopAt = .stopped
  silent : s.loopAt = .stopped → s.readerAt = .exited

variable {s s' : VtInput} {e : VtInputEvent}

/-- The queue does not depend on where the loop is. -/
theorem QueueInv.congr (h : s.QueueInv) {s' : VtInput} (hreader : (s'.pipe, s'.terminal, s'.reader) = (s.pipe, s.terminal, s.reader))
    (hat : s'.readerAt = s.readerAt) (hbytes : (s'.written, s'.taken) = (s.written, s.taken)) : s'.QueueInv := by
  simp only [Prod.mk.injEq] at hreader hbytes
  obtain ⟨hpipe, hterminal, hreader⟩ := hreader
  obtain ⟨hwritten, htaken⟩ := hbytes
  have hhand : s'.hand = s.hand := by unfold hand; rw [hat]
  have hroom : s'.hasRoom = s.hasRoom := by unfold hasRoom; rw [hat]
  obtain ⟨h1, h2, h3, h4, h5, h6, h7⟩ := h
  constructor <;> simp only [hpipe, hterminal, hreader, hwritten, htaken, hat, hhand, hroom] <;> assumption

theorem LoopInv.congr (h : s.LoopInv) (hloop : (s'.loopAt, s'.inRead, s'.useReader) = (s.loopAt, s.inRead, s.useReader))
    (hstop : s'.reader.stop = s.reader.stop) (hat : s.readerAt = .exited → s'.readerAt = .exited) : s'.LoopInv := by
  simp only [Prod.mk.injEq] at hloop
  obtain ⟨hloop, hin, huse⟩ := hloop
  have hinside : s'.inside = s.inside := by unfold inside; rw [hloop]
  have hrunning : s'.running = s.running := by unfold running; rw [hloop]
  obtain ⟨h1, h2, h3, h4, h5⟩ := h
  refine ⟨by rw [hin, h1, hinside], by rw [huse, h2, hrunning], by rwa [hloop], by rw [hstop, hloop]; exact h4, fun hs => ?_⟩
  rw [hloop] at hs
  exact hat (h5 hs)

/-! ## The waker -/

/-- Inside a READ_IO nothing else is cancelled. -/
theorem cancelIoEx_cases (h : s.inside = true) :
    (s.loopAt ≠ .inReadIo ∧ s.cancelIoEx = s) ∨ (s.loopAt = .inReadIo ∧ s.cancelIoEx = { s with loopAt := .back true }) := by
  unfold inside at h
  unfold cancelIoEx
  cases hloop : s.loopAt <;> simp_all

theorem LoopInv.cancelIoEx (h : s.LoopInv) (hin : s.inRead = true) : s.cancelIoEx.LoopInv := by
  rcases cancelIoEx_cases (h.inRead.symm.trans hin) with ⟨-, heq⟩ | ⟨hloop, heq⟩
  · rw [heq]
    exact h
  · have hstop := h.stop
    have huse := h.useReader
    simp only [running, hloop, reduceCtorEq, or_self] at hstop huse
    rw [heq]
    exact ⟨hin, huse, by simp, by simpa using hstop, fun hs => absurd hs (by simp)⟩

theorem LoopInv.tick (h : s.LoopInv) (signal : Bool) : (s.tick signal).LoopInv := by
  unfold VtInput.tick
  split_ifs with hin
  · exact h
  · exact h
  · exact h.cancelIoEx (by simpa using hin)

theorem LoopInv.nudge (h : s.LoopInv) : s.nudge.LoopInv := by
  unfold VtInput.nudge
  split_ifs with hin
  · exact h.cancelIoEx hin
  · exact h

/-- The waker touches nothing but the loop. -/
theorem cancelIoEx_frame (s : VtInput) :
    (s.cancelIoEx.pipe, s.cancelIoEx.terminal, s.cancelIoEx.reader) = (s.pipe, s.terminal, s.reader) ∧
      s.cancelIoEx.readerAt = s.readerAt ∧ (s.cancelIoEx.written, s.cancelIoEx.taken) = (s.written, s.taken) := by
  unfold cancelIoEx
  cases s.loopAt <;> exact ⟨rfl, rfl, rfl⟩

theorem QueueInv.nudge (h : s.QueueInv) : s.nudge.QueueInv := by
  obtain ⟨h1, h2, h3⟩ := s.cancelIoEx_frame
  unfold VtInput.nudge
  split_ifs
  · exact h.congr h1 h2 h3
  · exact h

theorem QueueInv.tick (h : s.QueueInv) (signal : Bool) : (s.tick signal).QueueInv := by
  obtain ⟨h1, h2, h3⟩ := s.cancelIoEx_frame
  unfold VtInput.tick
  split_ifs
  · exact h
  · exact h
  · exact h.congr h1 h2 h3

/-- In READ_IO with bytes in the queue, a tick cancels. -/
theorem LoopInv.wakes (h : s.LoopInv) (hloop : s.loopAt = .inReadIo) (hqueued : s.reader.queued ≠ 0) (signal : Bool) :
    (s.tick signal).loopAt = .back true := by
  have hin : s.inRead = true := by rw [h.inRead, inside, hloop]
  have huse : s.useReader = true := by rw [h.useReader, running, hloop]
  have hwaiting : s.inputWaiting = true := by simp [inputWaiting, huse, hqueued]
  unfold VtInput.tick
  rw [hin, hwaiting]
  simp [VtInput.cancelIoEx, hloop]

/-! ## What the reader does -/

/-- The steps of the reader, by where it is. -/
inductive ReaderMoves (s : VtInput) : VtInput → Prop where
  | stops (hat : s.readerAt = .space) (hstop : s.reader.stop = true) : ReaderMoves s { s with readerAt := .exited }
  | finds (hat : s.readerAt = .space) (hstop : s.reader.stop = false) (hroom : s.reader.queued < ReaderState.maxQueuedBytes) :
    ReaderMoves s { s with readerAt := .calling }
  | calls (hat : s.readerAt = .calling) : ReaderMoves s { s with readerAt := .reading }
  | reads (n : Nat) (hat : s.readerAt = .reading) (hmax : n ≤ 4096) :
    ReaderMoves s { s with readerAt := .read (.success (s.pipe.take n)), pipe := s.pipe.drop n }
  | readsNothing (hat : s.readerAt = .reading) : ReaderMoves s { s with readerAt := .read .empty }
  | readsEnd (hat : s.readerAt = .reading) (hterminal : s.terminal = false) (hpipe : s.pipe = []) :
    ReaderMoves s { s with readerAt := .read .closed }
  | leaves (result : ReadSome) (hat : s.readerAt = .read result) (hstop : s.reader.stop = true) :
    ReaderMoves s { s with readerAt := .exited }
  | appends (result : ReadSome) (hat : s.readerAt = .read result) (hstop : s.reader.stop = false) :
    ReaderMoves s { s with
      reader := s.reader.append result
      readerAt := .notifying s.reader.notify (result = .closed) }
  | notifies (notify eof : Bool) (hat : s.readerAt = .notifying notify eof) :
    ReaderMoves s { (if notify then s.nudge else s) with readerAt := if eof then .exited else .space }

theorem readerMoves (hstep : s.readerStep e = some s') : s.ReaderMoves s' := by
  unfold VtInput.readerStep at hstep
  cases e with
  | space =>
    dsimp only at hstep
    split_ifs at hstep with hc hstop
    · exact Option.some_inj.mp hstep ▸ .stops hc.1 hstop
    · exact Option.some_inj.mp hstep ▸ .finds hc.1 (Bool.eq_false_iff.mpr hstop) (hc.2.resolve_left hstop)
  | call =>
    dsimp only at hstep
    split_ifs at hstep with hat
    exact Option.some_inj.mp hstep ▸ .calls hat
  | readFile n =>
    dsimp only at hstep
    split_ifs at hstep with hc
    exact Option.some_inj.mp hstep ▸ .reads n hc.1 hc.2.2.1
  | readEmpty =>
    dsimp only at hstep
    split_ifs at hstep with hat
    exact Option.some_inj.mp hstep ▸ .readsNothing hat
  | readClosed =>
    dsimp only at hstep
    split_ifs at hstep with hc
    exact Option.some_inj.mp hstep ▸ .readsEnd hc.1 hc.2.1 hc.2.2
  | lock =>
    cases hat : s.readerAt with
    | read result =>
      simp only [hat] at hstep
      split_ifs at hstep with hstop
      · exact Option.some_inj.mp hstep ▸ .leaves result hat hstop
      · exact Option.some_inj.mp hstep ▸ .appends result hat (Bool.eq_false_iff.mpr hstop)
    | _ => simp [hat] at hstep
  | notify =>
    cases hat : s.readerAt with
    | notifying notify eof =>
      simp only [hat] at hstep
      exact Option.some_inj.mp hstep ▸ .notifies notify eof hat
    | _ => simp [hat] at hstep
  | _ => simp at hstep

/-! ## The terminal and the reader -/

theorem QueueInv.type (h : s.QueueInv) (hterminal : s.terminal = true) (bytes : List UInt8) :
    QueueInv { s with pipe := s.pipe ++ bytes, written := s.written ++ bytes } := by
  obtain ⟨rest, hwritten, hrest⟩ := h.order
  refine ⟨h.head, ⟨rest ++ bytes, ?_, fun hstop => ?_⟩, h.room, h.chunk, h.bounded, fun hat hstop => ?_, fun heof => ?_⟩
  · dsimp only
    rw [hwritten, List.append_assoc]
  · rw [hrest hstop, List.append_assoc]
    rfl
  · exact absurd ((h.closed hat hstop).1.symm.trans hterminal) (by decide)
  · exact absurd ((h.eof heof).1.symm.trans hterminal) (by decide)

/-- The queue, while the reader goes from one place to the next without locking it. -/
theorem QueueInv.move (h : s.QueueInv) {readerAt : ReaderAt} (pipe : List UInt8)
    (heof : s.reader.eof = false ∨ readerAt = .exited)
    (hroom : ({ s with readerAt, pipe } : VtInput).hasRoom = true → s.reader.queued < ReaderState.maxQueuedBytes)
    (hhand : s.reader.stop = false → ({ s with readerAt, pipe } : VtInput).hand ++ pipe = s.hand ++ s.pipe)
    (hchunk : ({ s with readerAt, pipe } : VtInput).hand.length ≤ 4096)
    (hclosed : readerAt = .read .closed → s.reader.stop = false → s.terminal = false ∧ pipe = []) :
    QueueInv { s with readerAt, pipe } := by
  obtain ⟨rest, hwritten, hrest⟩ := h.order
  refine ⟨h.head, ⟨rest, hwritten, fun hstop => (hrest hstop).trans (hhand hstop).symm⟩, hroom, hchunk, h.bounded, hclosed,
    fun he => ?_⟩
  obtain ⟨hterminal, hbytes, -⟩ := h.eof he
  exact ⟨hterminal, hbytes, .inr (heof.resolve_left (by rw [he]; decide))⟩

/-- Before it has found the end, the reader has not reported one. -/
theorem QueueInv.eof_eq_false (h : s.QueueInv) (hat : s.readerAt ≠ .exited) (hat' : ∀ notify, s.readerAt ≠ .notifying notify true) :
    s.reader.eof = false := by
  by_contra heof
  obtain ⟨-, -, ⟨notify, hn⟩ | hx⟩ := h.eof (by simpa using heof)
  · exact hat' notify hn
  · exact hat hx

theorem hand_eq_nil {s : VtInput} (h : ∀ chunk, s.readerAt ≠ .read (.success chunk)) : s.hand = [] := by
  unfold hand
  split
  · rename_i chunk hat
    exact absurd hat (h chunk)
  · rfl

/-- The reader puts what it has read behind the bytes of the queue. -/
theorem QueueInv.lock (h : s.QueueInv) {result : ReadSome} (hat : s.readerAt = .read result) (hstop : s.reader.stop = false)
    (notify : Bool) :
    QueueInv { s with reader := s.reader.append result, readerAt := .notifying notify (result = .closed) } := by
  obtain ⟨rest, hwritten, hrest⟩ := h.order
  obtain ⟨hhead, hunread⟩ := ReaderState.unread_append h.head result
  have heof : s.reader.eof = false := h.eof_eq_false (by rw [hat]; simp) fun _ => by rw [hat]; simp
  have hhand : s.hand = result.toList := by
    unfold hand
    rw [hat]
    cases result <;> rfl
  have hroom := h.room (by rw [hasRoom, hat])
  have hchunk := h.chunk
  rw [hhand] at hchunk
  have hlen := congrArg List.length hunread
  rw [List.length_append, ReaderState.length_unread, ReaderState.length_unread] at hlen
  have hbytes : s.written = s.taken ++ (s.reader.append result).unread ++ s.pipe := by
    rw [hwritten, hrest hstop, hunread, hhand]
    simp only [List.append_assoc]
  refine ⟨hhead, ⟨s.pipe, hbytes, fun _ => ?_⟩, fun h' => absurd h' Bool.false_ne_true, ?_, by dsimp only; omega, ?_,
    fun he => ?_⟩
  · rw [hand_eq_nil (by simp)]
    rfl
  · rw [hand_eq_nil (by simp)]
    exact Nat.zero_le _
  · exact fun h' => absurd h' (by simp)
  · cases result with
    | success chunk =>
      have : (s.reader.append (.success chunk)).eof = s.reader.eof := by
        unfold ReaderState.append
        dsimp only
        split_ifs <;> rfl
      exact absurd (this.symm.trans he) (by rw [heof]; decide)
    | empty => exact absurd he (by rw [show (s.reader.append .empty).eof = s.reader.eof from rfl, heof]; decide)
    | closed =>
      obtain ⟨hterminal, hpipe⟩ := h.closed hat hstop
      exact ⟨hterminal, by rw [hbytes, hpipe, List.append_nil], .inl ⟨notify, by simp⟩⟩

/-- The callback touches nothing but the loop. -/
theorem readerAt_notify (s : VtInput) (notify : Bool) : (if notify then s.nudge else s).readerAt = s.readerAt := by
  unfold VtInput.nudge
  split_ifs
  · exact s.cancelIoEx_frame.2.1
  · rfl
  · rfl

theorem QueueInv.readerMoves (h : s.QueueInv) (hm : s.ReaderMoves s') : s'.QueueInv := by
  have hmove (hat : s.readerAt = .space ∨ s.readerAt = .calling ∨ s.readerAt = .reading) :
      s.reader.eof = false ∧ s.hand = [] := by
    rcases hat with hat | hat | hat <;>
      exact ⟨h.eof_eq_false (by rw [hat]; simp) fun _ => by rw [hat]; simp, hand_eq_nil (by rw [hat]; simp)⟩
  cases hm with
  | stops hat hstop =>
    obtain ⟨-, hnil⟩ := hmove (.inl hat)
    exact h.move s.pipe (.inr rfl) (fun h' => absurd h' Bool.false_ne_true) (fun _ => by rw [hnil]; rfl) (Nat.zero_le _)
      fun h' => absurd h' (by simp)
  | finds hat hstop hroom =>
    obtain ⟨heof, hnil⟩ := hmove (.inl hat)
    exact h.move s.pipe (.inl heof) (fun _ => hroom) (fun _ => by rw [hnil]; rfl) (Nat.zero_le _)
      fun h' => absurd h' (by simp)
  | calls hat =>
    obtain ⟨heof, hnil⟩ := hmove (.inr (.inl hat))
    exact h.move s.pipe (.inl heof) (fun _ => h.room (by rw [hasRoom, hat])) (fun _ => by rw [hnil]; rfl) (Nat.zero_le _)
      fun h' => absurd h' (by simp)
  | reads n hat hmax =>
    obtain ⟨heof, hnil⟩ := hmove (.inr (.inr hat))
    refine h.move _ (.inl heof) (fun _ => h.room (by rw [hasRoom, hat])) (fun _ => ?_) ?_ (fun h' => absurd h' (by simp))
    · rw [hnil]
      exact List.take_append_drop n s.pipe
    · exact Nat.le_trans (List.length_take_le n s.pipe) hmax
  | readsNothing hat =>
    obtain ⟨heof, hnil⟩ := hmove (.inr (.inr hat))
    exact h.move s.pipe (.inl heof) (fun _ => h.room (by rw [hasRoom, hat])) (fun _ => by rw [hnil]; rfl) (Nat.zero_le _)
      fun h' => absurd h' (by simp)
  | readsEnd hat hterminal hpipe =>
    obtain ⟨heof, hnil⟩ := hmove (.inr (.inr hat))
    exact h.move s.pipe (.inl heof) (fun _ => h.room (by rw [hasRoom, hat])) (fun _ => by rw [hnil]; rfl) (Nat.zero_le _)
      fun _ _ => ⟨hterminal, hpipe⟩
  | leaves result hat hstop =>
    exact h.move s.pipe (.inr rfl) (fun h' => absurd h' Bool.false_ne_true)
      (fun h' => absurd (hstop.symm.trans h') (by decide)) (Nat.zero_le _) fun h' => absurd h' (by simp)
  | appends result hat hstop => exact h.lock hat hstop _
  | notifies notify eof hat =>
    have hq : (if notify then s.nudge else s).QueueInv := by
      split
      · exact h.nudge
      · exact h
    have hat' := (s.readerAt_notify notify).trans hat
    generalize (if notify then s.nudge else s) = t at hq hat'
    have hnil : t.hand = [] := hand_eq_nil (by rw [hat']; simp)
    refine hq.move t.pipe ?_ (fun h' => ?_) (fun _ => ?_) ?_ (fun h' => ?_)
    · cases eof with
      | true => exact .inr rfl
      | false => exact .inl (hq.eof_eq_false (by rw [hat']; simp) fun _ => by rw [hat']; simp)
    · cases eof <;> exact absurd h' Bool.false_ne_true
    · rw [hnil, hand_eq_nil (by cases eof <;> simp)]
    · rw [hand_eq_nil (by cases eof <;> simp)]
      exact Nat.zero_le _
    · cases eof <;> exact absurd h' (by simp)

theorem stop_append (r : ReaderState) (result : ReadSome) : (r.append result).stop = r.stop := by
  cases result with
  | success chunk =>
    unfold ReaderState.append
    dsimp only
    split_ifs <;> rfl
  | empty => rfl
  | closed => rfl

theorem LoopInv.readerMoves (h : s.LoopInv) (hm : s.ReaderMoves s') : s'.LoopInv := by
  have hother {place : ReaderAt} (hat : s.readerAt = place) (hne : place ≠ .exited) {p : Prop} (hx : s.readerAt = .exited) : p :=
    absurd (hat.symm.trans hx) hne
  cases hm with
  | stops hat hstop => exact h.congr rfl rfl (hother hat (by simp))
  | finds hat hstop hroom => exact h.congr rfl rfl (hother hat (by simp))
  | calls hat => exact h.congr rfl rfl (hother hat (by simp))
  | reads n hat hmax => exact h.congr rfl rfl (hother hat (by simp))
  | readsNothing hat => exact h.congr rfl rfl (hother hat (by simp))
  | readsEnd hat hterminal hpipe => exact h.congr rfl rfl (hother hat (by simp))
  | leaves result hat hstop => exact h.congr rfl rfl (hother hat (by simp))
  | appends result hat hstop => exact h.congr rfl (stop_append s.reader result) (hother hat (by simp))
  | notifies notify eof hat =>
    have hl : (if notify then s.nudge else s).LoopInv := by
      split
      · exact h.nudge
      · exact h
    have hat' := (s.readerAt_notify notify).trans hat
    exact hl.congr rfl rfl fun hx => absurd (hat'.symm.trans hx) (by simp)

/-! ## The loop -/

/-- The loop takes bytes from the front of the queue. -/
theorem QueueInv.taken (h : s.QueueInv) {reader : ReaderState} {taken : List UInt8} (hhead : reader.head ≤ reader.bytes.length)
    (hunread : taken ++ reader.unread = s.reader.unread)
    (hflags : (reader.eof, reader.stop, reader.notify) = (s.reader.eof, s.reader.stop, s.reader.notify)) :
    QueueInv { s with reader, taken := s.taken ++ taken } := by
  simp only [Prod.mk.injEq] at hflags
  obtain ⟨heof, hstop, -⟩ := hflags
  obtain ⟨rest, hwritten, hrest⟩ := h.order
  have hbytes : (s.taken ++ taken) ++ reader.unread = s.taken ++ s.reader.unread := by rw [List.append_assoc, hunread]
  have hqueued : reader.queued ≤ s.reader.queued := by
    have := congrArg List.length hunread
    rw [List.length_append, ReaderState.length_unread, ReaderState.length_unread] at this
    omega
  refine ⟨hhead, ⟨rest, by dsimp only; rw [hbytes]; exact hwritten, fun hs => hrest (hstop.symm.trans hs)⟩,
    fun hat => Nat.lt_of_le_of_lt hqueued (h.room hat), h.chunk, Nat.lt_of_le_of_lt hqueued h.bounded,
    fun hat hs => h.closed hat (hstop.symm.trans hs), fun he => ?_⟩
  obtain ⟨hterminal, hw, hat⟩ := h.eof (heof.symm.trans he)
  exact ⟨hterminal, by dsimp only; rw [hbytes]; exact hw, hat⟩

/-- Where the loop goes, between two steps that do not touch the queue. -/
structure Moves (s : VtInput) (loopAt : LoopAt) (inRead useReader : Bool) : Prop where
  inRead : s.inRead = s.inside → inRead = ({ s with loopAt } : VtInput).inside
  useReader : s.useReader = s.running → useReader = ({ s with loopAt } : VtInput).running
  cancels : loopAt ≠ .requestAborted
  before : s.loopAt ≠ .stopping ∧ s.loopAt ≠ .stopped
  after : loopAt ≠ .stopping ∧ loopAt ≠ .stopped

theorem loopStep_cases (hstep : s.loopStep e = some s') :
    (∃ size, 0 < size ∧
      s' = { s with reader := (s.reader.takeQueued size).2, taken := s.taken ++ (s.reader.takeQueued size).1.toList }) ∨
    (∃ expected, s' = { s with
      reader := (s.reader.tryConsumeByte expected).2
      taken := s.taken ++ (s.reader.tryConsumeByte expected).1.toList }) ∨
    (∃ loopAt inRead useReader, s.Moves loopAt inRead useReader ∧ s' = { s with loopAt, inRead, useReader }) ∨
    (s.loopAt = .leaving ∧ s' = { s with loopAt := .stopping, reader := { s.reader with stop := true, notify := false } }) ∨
    (s.loopAt = .stopping ∧ (s' = s ∨ s.readerAt = .reading ∧ s' = { s with readerAt := .read .closed })) ∨
    (s.loopAt = .stopping ∧ s.readerAt = .exited ∧ s' = { s with loopAt := .stopped }) := by
  have hmoves {loopAt : LoopAt} {inRead useReader : Bool} (h : s.Moves loopAt inRead useReader)
      (heq : some ({ s with loopAt, inRead, useReader } : VtInput) = some s') :
      ∃ loopAt inRead useReader, s.Moves loopAt inRead useReader ∧ s' = { s with loopAt, inRead, useReader } :=
    ⟨loopAt, inRead, useReader, h, (Option.some_inj.mp heq).symm⟩
  unfold VtInput.loopStep at hstep
  cases hloop : s.loopAt with
  | starting =>
    rw [hloop] at hstep
    dsimp only at hstep
    split_ifs at hstep
    exact .inr (.inr (.inl (hmoves ⟨by simp [inside, hloop], fun _ => rfl, by simp, by simp [hloop], by simp⟩ hstep)))
  | outside =>
    rw [hloop] at hstep
    cases e with
    | take size =>
      dsimp only at hstep
      split_ifs at hstep with hsize
      exact .inl ⟨_, Nat.pos_of_ne_zero hsize, (Option.some_inj.mp hstep).symm⟩
    | consume expected => exact .inr (.inl ⟨_, (Option.some_inj.mp hstep).symm⟩)
    | request =>
      refine .inr (.inr (.inl (hmoves ⟨?_, ?_, by simp, by simp [hloop], by simp⟩ hstep)))
      · simp [inside, hloop]
      · simp [running, hloop]
    | enterRead =>
      refine .inr (.inr (.inl (hmoves ⟨fun _ => rfl, ?_, by simp, by simp [hloop], by simp⟩ hstep)))
      simp [running, hloop]
    | dropReader =>
      refine .inr (.inr (.inl (hmoves ⟨?_, fun _ => rfl, by simp, by simp [hloop], by simp⟩ hstep)))
      simp [inside, hloop]
    | _ => exact absurd hstep.symm (Option.some_ne_none _)
  | request =>
    rw [hloop] at hstep
    dsimp only at hstep
    split_ifs at hstep
    refine .inr (.inr (.inl (hmoves ⟨?_, ?_, by simp, by simp [hloop], by simp⟩ hstep)))
    · simp [inside, hloop]
    · simp [running, hloop]
  | requestAborted =>
    rw [hloop] at hstep
    exact absurd hstep.symm (Option.some_ne_none _)
  | entered =>
    rw [hloop] at hstep
    dsimp only at hstep
    split_ifs at hstep
    refine .inr (.inr (.inl (hmoves ⟨?_, ?_, by simp, by simp [hloop], by simp⟩ hstep)))
    · simp [inside, hloop]
    · simp [running, hloop]
  | inReadIo =>
    rw [hloop] at hstep
    dsimp only at hstep
    split_ifs at hstep
    refine .inr (.inr (.inl (hmoves ⟨?_, ?_, by simp, by simp [hloop], by simp⟩ hstep)))
    · simp [inside, hloop]
    · simp [running, hloop]
  | back aborted =>
    rw [hloop] at hstep
    dsimp only at hstep
    split_ifs at hstep
    refine .inr (.inr (.inl (hmoves ⟨fun _ => rfl, ?_, by simp, by simp [hloop], by simp⟩ hstep)))
    simp [running, hloop]
  | leaving =>
    rw [hloop] at hstep
    dsimp only at hstep
    split_ifs at hstep
    exact .inr (.inr (.inr (.inl ⟨rfl, (Option.some_inj.mp hstep).symm⟩)))
  | stopping =>
    rw [hloop] at hstep
    dsimp only at hstep
    split_ifs at hstep with he hat hstopped
    · exact .inr (.inr (.inr (.inr (.inl ⟨rfl, .inr ⟨hat, (Option.some_inj.mp hstep).symm⟩⟩))))
    · exact .inr (.inr (.inr (.inr (.inl ⟨rfl, .inl (Option.some_inj.mp hstep).symm⟩))))
    · exact .inr (.inr (.inr (.inr (.inr ⟨rfl, hstopped.2, (Option.some_inj.mp hstep).symm⟩))))
  | stopped =>
    rw [hloop] at hstep
    exact absurd hstep.symm (Option.some_ne_none _)

theorem QueueInv.loopStep (h : s.QueueInv) (hl : s.LoopInv) (hstep : s.loopStep e = some s') : s'.QueueInv := by
  rcases loopStep_cases hstep with ⟨size, -, rfl⟩ | ⟨expected, rfl⟩ | ⟨_, _, _, -, rfl⟩ | ⟨-, rfl⟩ | ⟨hloop, rfl | ⟨hat, rfl⟩⟩ |
    ⟨-, -, rfl⟩
  · obtain ⟨h1, h2, h3, -⟩ := ReaderState.takeQueued_spec h.head size
    exact h.taken h1 h2 h3
  · obtain ⟨h1, h2, h3⟩ := ReaderState.tryConsumeByte_spec h.head expected
    exact h.taken h1 h2 h3
  · exact h.congr rfl rfl rfl
  · obtain ⟨rest, hwritten, -⟩ := h.order
    exact ⟨h.head, ⟨rest, hwritten, fun hs => absurd hs (by simp)⟩, h.room, h.chunk, h.bounded,
      fun _ hs => absurd hs (by simp), h.eof⟩
  · exact h
  · have hstop : s.reader.stop = true := hl.stop.mpr (.inl hloop)
    have hnot {p : Prop} (hs : s.reader.stop = false) : p := absurd (hstop.symm.trans hs) (by decide)
    exact h.move s.pipe (.inl (h.eof_eq_false (by rw [hat]; simp) fun _ => by rw [hat]; simp))
      (fun _ => h.room (by rw [hasRoom, hat])) hnot (Nat.zero_le _) fun _ => hnot
  · exact h.congr rfl rfl rfl

theorem LoopInv.loopStep (h : s.LoopInv) (hq : s.QueueInv) (hstep : s.loopStep e = some s') : s'.LoopInv := by
  rcases loopStep_cases hstep with ⟨size, -, rfl⟩ | ⟨expected, rfl⟩ | ⟨loopAt, inRead, useReader, hm, rfl⟩ | ⟨hloop, rfl⟩ |
    ⟨-, rfl | ⟨hat, rfl⟩⟩ | ⟨hloop, hat, rfl⟩
  · obtain ⟨-, -, h3, -⟩ := ReaderState.takeQueued_spec hq.head size
    exact h.congr rfl (Prod.ext_iff.mp (Prod.ext_iff.mp h3).2).1 id
  · obtain ⟨-, -, h3⟩ := ReaderState.tryConsumeByte_spec hq.head expected
    exact h.congr rfl (Prod.ext_iff.mp (Prod.ext_iff.mp h3).2).1 id
  · have hstop := h.stop
    simp only [hm.before.1, hm.before.2, or_self, iff_false] at hstop
    refine ⟨hm.inRead h.inRead, hm.useReader h.useReader, hm.cancels, ?_, fun hs => absurd hs hm.after.2⟩
    simp only [hm.after.1, hm.after.2, or_self, iff_false]
    exact hstop
  · have hin := h.inRead
    have huse := h.useReader
    simp only [inside, running, hloop] at hin huse
    exact ⟨hin, huse, by simp, by simp, fun hs => absurd hs (by simp)⟩
  · exact h
  · exact h.congr rfl rfl fun hx => absurd (hat.symm.trans hx) (by decide)
  · have hin := h.inRead
    have huse := h.useReader
    simp only [inside, running, hloop] at hin huse
    exact ⟨hin, huse, by simp, by simp [h.stop, hloop], fun _ => hat⟩

/-! ## Runs -/

/-- The invariant of the steps. -/
structure Inv (s : VtInput) : Prop where
  queue : s.QueueInv
  loop : s.LoopInv

theorem Inv.step (h : s.Inv) (hstep : s.step e = some s') : s'.Inv := by
  have hread (hr : s.readerStep e = some s') : s'.Inv :=
    ⟨h.queue.readerMoves (readerMoves hr), h.loop.readerMoves (readerMoves hr)⟩
  have hloop (hl : s.loopStep e = some s') : s'.Inv := ⟨h.queue.loopStep h.loop hl, h.loop.loopStep h.queue hl⟩
  cases e with
  | type bytes =>
    simp only [VtInput.step] at hstep
    split_ifs at hstep with hterminal
    rw [Option.some_inj] at hstep
    subst hstep
    exact ⟨hterminal ▸ h.queue.type hterminal bytes, h.loop.congr rfl rfl id⟩
  | hangUp =>
    rw [VtInput.step, Option.some_inj] at hstep
    subst hstep
    exact ⟨⟨h.queue.head, h.queue.order, h.queue.room, h.queue.chunk, h.queue.bounded,
      fun hat hs => ⟨rfl, (h.queue.closed hat hs).2⟩, fun he => ⟨rfl, (h.queue.eof he).2⟩⟩, h.loop.congr rfl rfl id⟩
  | tick signal =>
    rw [VtInput.step, Option.some_inj] at hstep
    subst hstep
    exact ⟨h.queue.tick signal, h.loop.tick signal⟩
  | space => exact hread hstep
  | call => exact hread hstep
  | readFile n => exact hread hstep
  | readEmpty => exact hread hstep
  | readClosed => exact hread hstep
  | lock => exact hread hstep
  | notify => exact hread hstep
  | _ => exact hloop hstep

theorem inv_init : Inv {} where
  queue := ⟨Nat.le_refl 0, ⟨[], rfl, fun _ => rfl⟩, fun _ => by decide, Nat.zero_le _, by decide,
    fun hat => absurd hat (by decide), fun he => absurd he (by decide)⟩
  loop := ⟨rfl, rfl, by decide, by decide, by decide⟩

theorem Inv.sound (h : s.Inv) : s.Sound where
  order := h.queue.order
  bounded := h.queue.bounded
  ended size hsize hres := by
    obtain ⟨heof, hunread⟩ := (ReaderState.takeQueued_spec h.queue.head size).2.2.2 hsize hres
    rw [(h.queue.eof heof).2.1, hunread, List.append_nil]
  cancels := h.loop.cancels
  wakes := h.loop.wakes
  silent := h.loop.silent

end VtInput

/-- In any order of the steps of the terminal, the reader, the loop and the waker. -/
theorem vt_input_sound (events : List VtInputEvent) : EveryState VtInput.step VtInput.Sound {} events :=
  @everyState_of_invariant _ _ _ VtInput.Inv _ (fun _ h => h.sound) (fun _ _ _ h hstep => h.step hstep) events _ VtInput.inv_init

/-! ## The end of the reader -/

/-- How many steps a reader that is told to stop has left. -/
def ReaderAt.stepsLeft : ReaderAt → Nat
  | .exited => 0
  | .space | .read _ => 1
  | .reading | .notifying _ _ => 2
  | .calling => 3

theorem ReaderAt.stepsLeft_le (place : ReaderAt) : place.stepsLeft ≤ 3 := by
  cases place <;> simp [ReaderAt.stepsLeft]

namespace VtInput

variable {s s' : VtInput} {e : VtInputEvent}

theorem stepsLeft_readerMoves (hstop : s.reader.stop = true) (hm : s.ReaderMoves s') :
    s'.readerAt.stepsLeft < s.readerAt.stepsLeft := by
  cases hm with
  | stops hat _ => simp [hat, ReaderAt.stepsLeft]
  | finds _ hgo _ => exact absurd (hstop.symm.trans hgo) (by decide)
  | calls hat => simp [hat, ReaderAt.stepsLeft]
  | reads _ hat _ => simp [hat, ReaderAt.stepsLeft]
  | readsNothing hat => simp [hat, ReaderAt.stepsLeft]
  | readsEnd hat _ _ => simp [hat, ReaderAt.stepsLeft]
  | leaves _ hat _ => simp [hat, ReaderAt.stepsLeft]
  | appends _ _ hgo => exact absurd (hstop.symm.trans hgo) (by decide)
  | notifies notify eof hat =>
    rw [hat]
    cases eof <;> simp [ReaderAt.stepsLeft]

/-- A step that is not one of the reader's leaves it where it is, or cancels its `ReadFile`. -/
theorem stepsLeft_step (hstop : s.reader.stop = true) (hstep : s.step e = some s') :
    s'.readerAt = s.readerAt ∨ s'.readerAt.stepsLeft < s.readerAt.stepsLeft := by
  have hread (hr : s.readerStep e = some s') :
      s'.readerAt = s.readerAt ∨ s'.readerAt.stepsLeft < s.readerAt.stepsLeft := .inr (stepsLeft_readerMoves hstop (readerMoves hr))
  cases e with
  | type bytes =>
    simp only [VtInput.step] at hstep
    split_ifs at hstep
    exact .inl (by rw [← Option.some_inj.mp hstep])
  | hangUp => exact .inl (by rw [← Option.some_inj.mp hstep])
  | tick signal =>
    rw [VtInput.step, Option.some_inj] at hstep
    subst hstep
    left
    unfold VtInput.tick
    split_ifs
    · rfl
    · rfl
    · exact s.cancelIoEx_frame.2.1
  | space => exact hread hstep
  | call => exact hread hstep
  | readFile n => exact hread hstep
  | readEmpty => exact hread hstep
  | readClosed => exact hread hstep
  | lock => exact hread hstep
  | notify => exact hread hstep
  | _ =>
    rcases loopStep_cases (e := _) hstep with ⟨_, -, rfl⟩ | ⟨_, rfl⟩ | ⟨_, _, _, -, rfl⟩ | ⟨-, rfl⟩ | ⟨-, rfl | ⟨hat, rfl⟩⟩ |
      ⟨-, -, rfl⟩
    · exact .inl rfl
    · exact .inl rfl
    · exact .inl rfl
    · exact .inl rfl
    · exact .inl rfl
    · exact .inr (by rw [hat]; simp [ReaderAt.stepsLeft])
    · exact .inl rfl

/-- While `stop_reader` waits, the reader or `CancelSynchronousIo` can take it nearer to its end. -/
theorem Inv.stopping (h : s.Inv) (hloop : s.loopAt = .stopping) :
    (s.readerAt = .exited ∧ s.step .stopped = some { s with loopAt := .stopped }) ∨
      ∃ e s', s.step e = some s' ∧ s'.readerAt.stepsLeft < s.readerAt.stepsLeft := by
  have hstop : s.reader.stop = true := h.loop.stop.mpr (.inl hloop)
  cases hat : s.readerAt with
  | exited =>
    refine .inl ⟨rfl, ?_⟩
    change s.loopStep .stopped = _
    unfold VtInput.loopStep
    rw [hloop]
    dsimp only
    rw [if_neg (by simp), if_pos ⟨rfl, hat⟩, hat]
  | space =>
    refine .inr ⟨.space, { s with readerAt := .exited }, ?_, by simp [ReaderAt.stepsLeft]⟩
    simp [VtInput.step, VtInput.readerStep, hat, hstop]
  | calling =>
    refine .inr ⟨.call, { s with readerAt := .reading }, ?_, by simp [ReaderAt.stepsLeft]⟩
    simp [VtInput.step, VtInput.readerStep, hat]
  | reading =>
    refine .inr ⟨.cancelReader, { s with readerAt := .read .closed }, ?_, by simp [ReaderAt.stepsLeft]⟩
    change s.loopStep .cancelReader = _
    unfold VtInput.loopStep
    rw [hloop]
    dsimp only
    rw [if_pos rfl, if_pos hat]
  | read result =>
    refine .inr ⟨.lock, { s with readerAt := .exited }, ?_, by simp [ReaderAt.stepsLeft]⟩
    simp [VtInput.step, VtInput.readerStep, hat, hstop]
  | notifying notify eof =>
    refine .inr ⟨.notify, { (if notify then s.nudge else s) with readerAt := if eof then .exited else .space }, ?_, ?_⟩
    · simp [VtInput.step, VtInput.readerStep, hat]
    · cases eof <;> simp [ReaderAt.stepsLeft]

end VtInput

/-- `stop_reader` returns: in every state in which it waits, the reader has ended
or a step that takes it nearer to its end is possible, a step of its own takes
it nearer, and no step of anybody takes it back. So the reader makes three more
steps at most, however often `CancelSynchronousIo` misses. -/
theorem stop_reader_ends (events : List VtInputEvent) :
    EveryState VtInput.step (fun s => s.loopAt = .stopping →
      ((s.readerAt = .exited ∧ s.step .stopped = some { s with loopAt := .stopped }) ∨
        ∃ e s', s.step e = some s' ∧ s'.readerAt.stepsLeft < s.readerAt.stepsLeft) ∧
      s.readerAt.stepsLeft ≤ 3 ∧
      (∀ e s', s.readerStep e = some s' → s'.readerAt.stepsLeft < s.readerAt.stepsLeft) ∧
      ∀ e s', s.step e = some s' → s'.readerAt = s.readerAt ∨ s'.readerAt.stepsLeft < s.readerAt.stepsLeft) {} events := by
  refine @everyState_of_invariant _ _ _ VtInput.Inv _ (fun s h hloop => ?_) (fun _ _ _ h hstep => h.step hstep) events _
    VtInput.inv_init
  have hstop : s.reader.stop = true := h.loop.stop.mpr (.inl hloop)
  exact ⟨h.stopping hloop, s.readerAt.stepsLeft_le,
    fun _ _ hstep => VtInput.stepsLeft_readerMoves hstop (VtInput.readerMoves hstep),
    fun _ _ hstep => VtInput.stepsLeft_step hstop hstep⟩

end Corehost
