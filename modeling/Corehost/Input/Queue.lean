import Corehost.Input.Model
import Corehost.Lib.Runs

/-!
# The input queue

The model of `input_buffer` (`input_buffer.hpp`) with its event, over any
sequence of its operations.

* `Behaves`: what an operation does to the queue, as a list of at most
  `maxEvents` records;
* `behaves_handle`: every operation does so;
* `input_queue_iff`: when the event is signalled exactly while the queue is not
  empty, in each state of a run.
-/

namespace Corehost

open Lib

/-! ## The model -/

/-- `input_buffer`. `event` is the state of `input_available_event`, signalled
or not, if there is one. -/
structure InputQueue where
  events : List InputRecord := []
  event : Option Bool := none

inductive QueueOperation
  | write (records : List InputRecord)
  | prepend (records : List InputRecord)
  | read (maxCount : Nat)
  | peek (maxCount : Nat)
  | flush
  /-- `set_event`, with a valid handle or an empty one -/
  | setEvent (valid : Bool)
  | initEvent

/-- The records that an operation has copied out, or the number that it returns. -/
inductive QueueReply
  | none
  | count (n : Nat)
  | records (records : List InputRecord)

namespace InputQueue

/-- `SetEvent`, or `ResetEvent`, for the event if there is one. -/
def signal (q : InputQueue) (signalled : Bool) : InputQueue := { q with event := q.event.map fun _ => signalled }

def setEvent (q : InputQueue) (valid : Bool) : InputQueue :=
  { q with event := if valid then some (!q.events.isEmpty) else none }

/-- `init_event`. The event that it creates is not signalled. -/
def initEvent (q : InputQueue) : InputQueue := if q.event = none then { q with event := some false } else q

def write (q : InputQueue) (records : List InputRecord) : Nat × InputQueue :=
  let n := min records.length (maxEvents - q.events.length)
  let q := { q with events := inputWrite q.events records }
  (n, if n > 0 then q.signal true else q)

def prepend (q : InputQueue) (records : List InputRecord) : Nat × InputQueue :=
  let n := min records.length (maxEvents - q.events.length)
  let q := { q with events := inputPrepend q.events records }
  (n, if n > 0 then q.signal true else q)

def read (q : InputQueue) (maxCount : Nat) : List InputRecord × InputQueue :=
  let n := min maxCount q.events.length
  let out := q.events.take n
  let q := { q with events := q.events.drop n }
  (out, if q.events.isEmpty then q.signal false else q)

def peek (q : InputQueue) (maxCount : Nat) : List InputRecord := q.events.take (min maxCount q.events.length)

def flush (q : InputQueue) : InputQueue := { q with events := [] }.signal false

def handle (q : InputQueue) : QueueOperation → QueueReply × InputQueue
  | .write records => let (n, q) := q.write records; (.count n, q)
  | .prepend records => let (n, q) := q.prepend records; (.count n, q)
  | .read maxCount => let (out, q) := q.read maxCount; (.records out, q)
  | .peek maxCount => (.records (q.peek maxCount), q)
  | .flush => (.none, q.flush)
  | .setEvent valid => (.none, q.setEvent valid)
  | .initEvent => (.none, q.initEvent)

/-! ## A list of records -/

/-- The first records that fit: how many of them go in, and what the list is then. -/
structure Accepts (before records : List InputRecord) (n : Nat) (after : List InputRecord) : Prop where
  le : n ≤ records.length
  length : after.length = before.length + n
  bounded : after.length ≤ maxEvents
  full : n < records.length → after.length = maxEvents

/-- What an operation does to a list of at most `maxEvents` records. -/
def Behaves (before : List InputRecord) : QueueOperation → QueueReply → List InputRecord → Prop
  | .write records, .count n, after => after = before ++ records.take n ∧ Accepts before records n after
  | .prepend records, .count n, after => after = records.take n ++ before ∧ Accepts before records n after
  | .read maxCount, .records out, after => out = before.take maxCount ∧ before = out ++ after
  | .peek maxCount, .records out, after => out = before.take maxCount ∧ after = before
  | .flush, _, after => after = []
  | .setEvent _, _, after => after = before
  | .initEvent, _, after => after = before
  | _, _, _ => False

variable {q : InputQueue}

theorem accepts_write (h : q.events.length ≤ maxEvents) (records : List InputRecord) :
    Accepts q.events records (min records.length (maxEvents - q.events.length)) (inputWrite q.events records) := by
  have hlength : (inputWrite q.events records).length =
      q.events.length + min records.length (maxEvents - q.events.length) := by
    rw [inputWrite, List.length_append, List.length_take, Nat.min_comm]
  exact ⟨by omega, hlength, by omega, by omega⟩

theorem accepts_prepend (h : q.events.length ≤ maxEvents) (records : List InputRecord) :
    Accepts q.events records (min records.length (maxEvents - q.events.length)) (inputPrepend q.events records) := by
  have hlength : (inputPrepend q.events records).length =
      q.events.length + min records.length (maxEvents - q.events.length) := by
    rw [inputPrepend, List.length_append, List.length_take, Nat.min_comm, Nat.add_comm]
  exact ⟨by omega, hlength, by omega, by omega⟩

theorem events_write (q : InputQueue) (records : List InputRecord) :
    (q.write records).2.events = inputWrite q.events records := by
  unfold write
  dsimp only
  split <;> rfl

theorem events_prepend (q : InputQueue) (records : List InputRecord) :
    (q.prepend records).2.events = inputPrepend q.events records := by
  unfold prepend
  dsimp only
  split <;> rfl

theorem events_read (q : InputQueue) (maxCount : Nat) :
    (q.read maxCount).2.events = q.events.drop (min maxCount q.events.length) := by
  unfold read
  dsimp only
  split <;> rfl

/-- Every operation behaves as on a list. -/
theorem behaves_handle (h : q.events.length ≤ maxEvents) (op : QueueOperation) :
    Behaves q.events op (q.handle op).1 (q.handle op).2.events := by
  have htake (records : List InputRecord) (room : Nat) : records.take room = records.take (min records.length room) :=
    List.take_eq_take_iff.mpr (by omega)
  cases op with
  | write records =>
    have hevents := q.events_write records
    have haccepts := accepts_write h records
    rw [← hevents] at haccepts
    exact ⟨hevents.trans (congrArg (q.events ++ ·) (htake ..)), haccepts⟩
  | prepend records =>
    have hevents := q.events_prepend records
    have haccepts := accepts_prepend h records
    rw [← hevents] at haccepts
    exact ⟨hevents.trans (congrArg (· ++ q.events) (htake ..)), haccepts⟩
  | read maxCount =>
    have hevents := q.events_read maxCount
    refine ⟨List.take_eq_take_iff.mpr (by omega), ?_⟩
    exact (List.take_append_drop ..).symm.trans (congrArg (q.events.take (min maxCount q.events.length) ++ ·) hevents.symm)
  | peek maxCount => exact ⟨List.take_eq_take_iff.mpr (by omega), rfl⟩
  | flush => rfl
  | setEvent valid => rfl
  | initEvent =>
    change q.initEvent.events = q.events
    unfold initEvent
    split <;> rfl

/-! ## The event -/

/-- The event is signalled exactly while the queue is not empty. -/
def Signals (q : InputQueue) : Prop := ∀ signalled, q.event = some signalled → signalled = !q.events.isEmpty

/-- A queue of at most `maxEvents` records with its event, on which every
operation behaves as on a list. -/
structure Right (q : InputQueue) : Prop where
  bounded : q.events.length ≤ maxEvents
  signals : q.Signals
  behaves : ∀ op, Behaves q.events op (q.handle op).1 (q.handle op).2.events

/-- The step does not install a new event for a queue that is not empty. -/
def InstallsEmpty (q : InputQueue) (op : QueueOperation) : Prop := op = .initEvent → q.event = none → q.events = []

theorem right_iff : q.Right ↔ q.events.length ≤ maxEvents ∧ q.Signals :=
  ⟨fun h => ⟨h.bounded, h.signals⟩, fun h => ⟨h.1, h.2, behaves_handle h.1⟩⟩

theorem signals_signal {signalled : Bool} (h : signalled = !q.events.isEmpty) : (q.signal signalled).Signals := by
  intro b hb
  obtain ⟨-, -, rfl⟩ := Option.map_eq_some_iff.mp hb
  exact h

theorem bounded_of_behaves {op : QueueOperation} {reply : QueueReply} {before after : List InputRecord}
    (h : before.length ≤ maxEvents) (hb : Behaves before op reply after) : after.length ≤ maxEvents := by
  cases op with
  | write records => cases reply with
    | count n => exact hb.2.bounded
    | _ => exact hb.elim
  | prepend records => cases reply with
    | count n => exact hb.2.bounded
    | _ => exact hb.elim
  | read maxCount => cases reply with
    | records out =>
      rw [hb.2, List.length_append] at h
      omega
    | _ => exact hb.elim
  | peek maxCount => cases reply with
    | records out => exact hb.2 ▸ h
    | _ => exact hb.elim
  | flush => exact hb ▸ Nat.zero_le _
  | setEvent valid => exact hb ▸ h
  | initEvent => exact hb ▸ h

theorem signals_write (h : q.Signals) {n : Nat} {events : List InputRecord} (hempty : n = 0 → events = q.events)
    (hfull : n > 0 → events ≠ []) :
    (if n > 0 then { q with events := events }.signal true else { q with events := events }).Signals := by
  split_ifs with hn
  · exact signals_signal (by simpa using hfull hn)
  · intro b hb
    rw [h b hb]
    dsimp only
    rw [hempty (by omega)]

theorem Signals.handle (h : q.Signals) (hbounded : q.events.length ≤ maxEvents) {op : QueueOperation}
    (hc : q.InstallsEmpty op) : (q.handle op).2.Signals := by
  cases op with
  | write records =>
    have hlength := (accepts_write hbounded records).length
    refine signals_write h (fun hn => ?_) (fun hn => List.ne_nil_of_length_pos (by omega))
    refine (List.prefix_append ..).eq_of_length (by rw [← inputWrite]; omega) |>.symm
  | prepend records =>
    have hlength := (accepts_prepend hbounded records).length
    refine signals_write h (fun hn => ?_) (fun hn => List.ne_nil_of_length_pos (by omega))
    refine (List.suffix_append ..).eq_of_length (by rw [← inputPrepend]; omega) |>.symm
  | read maxCount =>
    change (q.read maxCount).2.Signals
    unfold read
    dsimp only
    split_ifs with hempty
    · exact signals_signal (by rw [hempty]; rfl)
    · intro b hb
      have hne : q.events ≠ [] := fun hnil => hempty (by rw [hnil, List.drop_nil]; rfl)
      rw [h b hb, List.isEmpty_eq_false_iff.mpr hne]
      exact (congrArg (!·) (Bool.eq_false_iff.mpr hempty)).symm
  | peek maxCount => exact h
  | flush => exact signals_signal rfl
  | setEvent valid =>
    change q.setEvent valid |>.Signals
    unfold setEvent
    split
    · rintro b hb
      exact (Option.some_inj.mp hb).symm
    · exact nofun
  | initEvent =>
    change q.initEvent.Signals
    unfold initEvent
    split_ifs with hnone
    · rintro b hb
      obtain rfl := Option.some_inj.mp hb
      rw [hc rfl hnone]
      rfl
    · exact h

/-- A step that leaves a right queue installs an event for an empty one only. -/
theorem installsEmpty_of_right {op : QueueOperation} (h : (q.handle op).2.Right) : q.InstallsEmpty op := by
  rintro rfl hnone
  have hsignal := h.signals false (by rw [InputQueue.handle, initEvent, if_pos hnone])
  rw [InputQueue.handle, initEvent, if_pos hnone] at hsignal
  exact List.isEmpty_iff.mp (by simpa using hsignal.symm)

/-- Under any sequence of operations, from an empty queue without an event: in
each state the queue has at most `maxEvents` records, each operation behaves as
on a list, and an event that is installed is signalled exactly while the queue
is not empty, if and only if `init_event` only ever makes an event for an empty
queue. -/
theorem input_queue_iff (operations : List QueueOperation) :
    EveryState (fun q op => some (handle q op).2) Right {} operations ↔
      EveryStep (fun q op => some (handle q op).2) InstallsEmpty {} operations := by
  have hkeeps : ∀ q op r, Right q → q.InstallsEmpty op → some (handle q op).2 = some r → r.Right := by
    intro q op r h hc hr
    obtain rfl := Option.some_inj.mp hr
    exact right_iff.mpr ⟨bounded_of_behaves h.bounded (h.behaves op), h.signals.handle h.bounded hc⟩
  exact everyState_iff_everyStep (fun _ h => h) hkeeps (fun q op _ h => installsEmpty_of_right (h _ rfl)) operations
    (right_iff.mpr ⟨Nat.zero_le _, nofun⟩)

/-- A record, and then the event. -/
theorem initEvent_not_signalled :
    let q := [.write [.other 0x10], .initEvent].foldl (fun q op => (handle q op).2) {}
    q.event = some false ∧ q.events.length = 1 := by
  decide

end InputQueue

end Corehost
