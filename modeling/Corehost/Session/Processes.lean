import Corehost.Lib.Cpp
import Mathlib.Data.List.Nodup

/-!
# The process list

The model of the process table of `io_state` (`io_state.hpp`), of its copy
`process_list_snapshot` that the bridge keeps, and of the calls of
`message_router` and of GetConsoleProcessList that use them.

`liveAfter` says which processes are attached, oldest first, each with its
process group. Main results:

* `Holds.add`, `Holds.remove`: the two arrays keep the attached processes in
  front, in the order in which they connected;
* `process_list_is_live`: after any messages the table, the snapshot and the
  answer to a client are the attached processes.
-/

namespace Corehost

open Lib

/-! ## The table -/

def MAX_PROCESSES : Nat := 64

/-- The process list of `io_state`: two arrays of which the first `processCount` elements count. -/
structure ProcessTable where
  processList : List UInt32 := List.replicate MAX_PROCESSES 0
  processGroups : List UInt32 := List.replicate MAX_PROCESSES 0
  processCount : Nat := 0
deriving DecidableEq, Repr

namespace ProcessTable

def addProcess (t : ProcessTable) (pid : UInt32) (group : UInt32 := 0) : ProcessTable :=
  if pid ∈ t.processList.take t.processCount then t
  else if t.processCount < MAX_PROCESSES then
    { processGroups := t.processGroups.set t.processCount group
      processList := t.processList.set t.processCount pid
      processCount := t.processCount + 1 }
  else t

/-- `std::move(l.begin() + index + 1, l.begin() + count, l.begin() + index)`, and the last element cleared. -/
def removeAt (l : List UInt32) (count index : Nat) : List UInt32 :=
  (setRange l index ((l.take count).drop (index + 1))).set (count - 1) 0

def removeProcess (t : ProcessTable) (pid : UInt32) : ProcessTable :=
  if pid ∈ t.processList.take t.processCount then
    let index := (t.processList.take t.processCount).idxOf pid
    { processList := removeAt t.processList t.processCount index
      processGroups := removeAt t.processGroups t.processCount index
      processCount := t.processCount - 1 }
  else t

end ProcessTable

/-- `process_list_snapshot`. -/
structure ProcessListSnapshot where
  processes : List UInt32 := List.replicate MAX_PROCESSES 0
  groups : List UInt32 := List.replicate MAX_PROCESSES 0
  count : Nat := 0
deriving DecidableEq, Repr

namespace ProcessListSnapshot

def assign (s : ProcessListSnapshot) (processes groups : List UInt32) : ProcessListSnapshot :=
  let count := min processes.length MAX_PROCESSES
  let s : ProcessListSnapshot :=
    { count := count
      processes := setRange s.processes 0 (processes.take count)
      groups := List.replicate MAX_PROCESSES 0 }
  { s with groups := setRange s.groups 0 (groups.take (min s.count groups.length)) }

/-- The arguments of the calls that `for_each` makes. -/
def entries (s : ProcessListSnapshot) : List (UInt32 × UInt32) := (s.processes.take s.count).zip (s.groups.take s.count)

def copyNewestFirst (s : ProcessListSnapshot) (capacity : Nat) : List UInt32 :=
  let copyCount := min s.count capacity
  ((s.processes.take s.count).drop (s.count - copyCount)).reverse

end ProcessListSnapshot

/-! ## The messages -/

/-- The CONNECT and DISCONNECT messages, with `descriptor.Process`. A CONNECT
has `InputSize` bytes of input, from which the process group is read; `none` when reading fails. -/
inductive ProcessMessage where
  | connect (process : UInt64) (inputSize : Nat) (group : Option UInt32)
  | disconnect (process : UInt64)
deriving DecidableEq, Repr

/-- `offsetof(CONSOLE_SERVER_MSG, ProcessGroupId)`. -/
def PROCESS_GROUP_OFFSET : Nat := 28

def connectProcessGroup (inputSize : Nat) (group : Option UInt32) : UInt32 :=
  if inputSize < PROCESS_GROUP_OFFSET + 4 then 0 else group.getD 0

/-- The process list of `io_state` and the copy of `pipe_bridge`. -/
structure ProcessLists where
  io : ProcessTable := {}
  snapshot : ProcessListSnapshot := {}
deriving DecidableEq, Repr

namespace ProcessLists

def syncProcessSnapshot (s : ProcessLists) : ProcessLists :=
  { s with
    snapshot := s.snapshot.assign (s.io.processList.take s.io.processCount) (s.io.processGroups.take s.io.processCount) }

/-- `on_connect`, and `dispatch` for a DISCONNECT. -/
def onMessage (s : ProcessLists) : ProcessMessage → ProcessLists
  | .connect process inputSize group =>
    { s with io := s.io.addProcess process.toUInt32 (connectProcessGroup inputSize group) }.syncProcessSnapshot
  | .disconnect process => { s with io := s.io.removeProcess process.toUInt32 }.syncProcessSnapshot

/-- The lists at the start of a session. A process that was attached before has no known group. -/
def start (attached : UInt32) : ProcessLists :=
  if attached ≠ 0 then { io := ProcessTable.addProcess {} attached : ProcessLists }.syncProcessSnapshot else {}

def run (s : ProcessLists) (msgs : List ProcessMessage) : ProcessLists := msgs.foldl onMessage s

end ProcessLists

/-- `sizeof(CONSOLE_MSG_HEADER)`. -/
def MSG_HEADER : Nat := 8

/-- `sizeof(io_msg::body)`. -/
def MSG_BODY : Nat := 4096

/-- `message_output_tail_capacity`. -/
def messageOutputTailCapacity (outputSize apiSize : Nat) : Nat :=
  let localCapacity := MSG_BODY - (MSG_HEADER + apiSize)
  if outputSize = 0 then localCapacity
  else if outputSize > apiSize then min (outputSize - apiSize) localCapacity
  else 0

/-- `api_l3_get_process_list`: `dwProcessCount` and the copied processes; `none`
is STATUS_INVALID_PARAMETER. -/
def getProcessList (s : ProcessListSnapshot) (inputSize outputSize : Nat) : Option (Nat × List UInt32) :=
  if inputSize < MSG_HEADER + 4 then none
  else some (s.count, s.copyNewestFirst (messageOutputTailCapacity outputSize 4 / 4))

/-! ## The attached processes -/

/-- The attached processes with their groups, oldest first, after a message. -/
def liveAfter (live : List (UInt32 × UInt32)) : ProcessMessage → List (UInt32 × UInt32)
  | .connect process inputSize group =>
    if process.toUInt32 ∈ live.map Prod.fst then live
    else live ++ [(process.toUInt32, connectProcessGroup inputSize group)]
  | .disconnect process => live.filter fun p => p.1 ≠ process.toUInt32

def live (attached : UInt32) (msgs : List ProcessMessage) : List (UInt32 × UInt32) :=
  msgs.foldl liveAfter (if attached ≠ 0 then [(attached, 0)] else [])

/-- Whether one process is attached after a message. -/
def attachedAfter (pid : UInt32) (attached : Bool) : ProcessMessage → Bool
  | .connect process _ _ => attached || process.toUInt32 == pid
  | .disconnect process => attached && process.toUInt32 != pid

/-! ## The arrays -/

section Arrays

variable {l xs : List UInt32}

theorem prefix_push (h : xs <+: l) (hn : xs.length < l.length) (v : UInt32) : xs ++ [v] <+: l.set xs.length v := by
  obtain ⟨ys, rfl⟩ := h
  match ys with
  | [] => simp at hn
  | y :: ys => exact ⟨ys, by simp⟩

theorem prefix_removeAt (h : xs <+: l) {index : Nat} (hi : index < xs.length) :
    xs.eraseIdx index <+: ProcessTable.removeAt l xs.length index := by
  obtain ⟨ys, rfl⟩ := h
  have hlen : (xs.eraseIdx index).length = xs.length - 1 := by rw [List.length_eraseIdx_of_lt hi]
  have hmoved : setRange (xs ++ ys) index (((xs ++ ys).take xs.length).drop (index + 1)) =
      xs.eraseIdx index ++ (xs ++ ys).drop (xs.length - 1) := by
    rw [setRange, List.take_left, List.length_drop, List.eraseIdx_eq_take_drop_succ, List.take_append_of_le_length (by omega)]
    congr 2
    omega
  rw [ProcessTable.removeAt, hmoved, List.set_append_right _ _ (by omega), hlen]
  exact List.prefix_append _ _

theorem length_removeAt (h : xs <+: l) {index : Nat} (hi : index < xs.length) :
    (ProcessTable.removeAt l xs.length index).length = l.length := by
  have hle := h.length_le
  rw [ProcessTable.removeAt, List.length_set, length_setRange]
  rw [List.length_drop, List.length_take]
  omega

end Arrays

/-- The first elements of the arrays are the attached processes. -/
structure Holds (t : ProcessTable) (live : List (UInt32 × UInt32)) : Prop where
  count : t.processCount = live.length
  pids : live.map Prod.fst <+: t.processList
  groups : live.map Prod.snd <+: t.processGroups
  capacity : t.processList.length = MAX_PROCESSES ∧ t.processGroups.length = MAX_PROCESSES
  nodup : (live.map Prod.fst).Nodup

namespace Holds

variable {t : ProcessTable} {live : List (UInt32 × UInt32)}

theorem empty : Holds {} [] :=
  ⟨rfl, List.nil_prefix, List.nil_prefix, by simp, List.nodup_nil⟩

theorem take_pids (h : Holds t live) : t.processList.take t.processCount = live.map Prod.fst := by
  rw [h.count, ← List.length_map Prod.fst]
  exact (List.prefix_iff_eq_take.mp h.pids).symm

theorem take_groups (h : Holds t live) : t.processGroups.take t.processCount = live.map Prod.snd := by
  rw [h.count, ← List.length_map Prod.snd]
  exact (List.prefix_iff_eq_take.mp h.groups).symm

theorem length_le (h : Holds t live) : live.length ≤ MAX_PROCESSES := by
  have := h.pids.length_le
  rwa [List.length_map, h.capacity.1] at this

theorem add (h : Holds t live) (pid group : UInt32)
    (hroom : pid ∉ live.map Prod.fst → live.length < MAX_PROCESSES) :
    Holds (t.addProcess pid group) (if pid ∈ live.map Prod.fst then live else live ++ [(pid, group)]) := by
  unfold ProcessTable.addProcess
  rw [h.take_pids]
  by_cases hm : pid ∈ live.map Prod.fst
  · rw [if_pos hm, if_pos hm]
    exact h
  · have hlt := hroom hm
    rw [if_neg hm, if_neg hm, if_pos (by rw [h.count]; exact hlt)]
    have hp := prefix_push h.pids (by rw [List.length_map, h.capacity.1]; exact hlt) pid
    have hg := prefix_push h.groups (by rw [List.length_map, h.capacity.2]; exact hlt) group
    rw [List.length_map, ← h.count] at hp hg
    refine ⟨by simp [h.count], by simpa using hp, by simpa using hg, by simpa using h.capacity, ?_⟩
    rw [List.map_append]
    exact List.Nodup.append h.nodup (List.nodup_singleton _) (by simpa using hm)

theorem map_eraseIdx {α β : Type*} (f : α → β) (l : List α) (i : Nat) : (l.eraseIdx i).map f = (l.map f).eraseIdx i := by
  rw [List.eraseIdx_eq_take_drop_succ, List.eraseIdx_eq_take_drop_succ, List.map_append, List.map_take, List.map_drop]

/-- The attached processes without one of them. -/
theorem filter_eq_eraseIdx : ∀ {live : List (UInt32 × UInt32)}, (live.map Prod.fst).Nodup → ∀ {pid : UInt32},
    pid ∈ live.map Prod.fst → (live.filter fun p => p.1 ≠ pid) = live.eraseIdx ((live.map Prod.fst).idxOf pid)
  | [], _, _, hm => absurd hm (by simp)
  | (p, g) :: live, hn, pid, hm => by
    rw [List.map_cons, List.nodup_cons] at hn
    by_cases hp : p = pid
    · subst hp
      have hall : ∀ q ∈ live, q.1 ≠ p := fun q hq he => hn.1 (List.mem_map.mpr ⟨q, hq, he⟩)
      rw [List.filter_cons_of_neg (by simp), List.map_cons, List.idxOf_cons_self, List.eraseIdx_cons_zero,
        List.filter_eq_self.mpr (by simpa using hall)]
    · have hm' : pid ∈ live.map Prod.fst := by simpa [Ne.symm hp] using hm
      rw [List.filter_cons_of_pos (by simpa using hp), List.map_cons, List.idxOf_cons_ne _ hp, List.eraseIdx_cons_succ,
        filter_eq_eraseIdx hn.2 hm']

theorem remove (h : Holds t live) (pid : UInt32) :
    Holds (t.removeProcess pid) (live.filter fun p => p.1 ≠ pid) := by
  unfold ProcessTable.removeProcess
  rw [h.take_pids]
  by_cases hm : pid ∈ live.map Prod.fst
  · rw [if_pos hm, filter_eq_eraseIdx h.nodup hm]
    have hi : (live.map Prod.fst).idxOf pid < live.length := by simpa using List.idxOf_lt_length_of_mem hm
    generalize (live.map Prod.fst).idxOf pid = index at hi
    have hip : index < (live.map Prod.fst).length := by simpa using hi
    have hig : index < (live.map Prod.snd).length := by simpa using hi
    have hp := prefix_removeAt h.pids hip
    have hg := prefix_removeAt h.groups hig
    have hlp := length_removeAt h.pids hip
    have hlg := length_removeAt h.groups hig
    rw [List.length_map, ← h.count] at hp hg hlp hlg
    refine ⟨?_, ?_, ?_, ⟨hlp.trans h.capacity.1, hlg.trans h.capacity.2⟩, ?_⟩
    · rw [List.length_eraseIdx_of_lt hi, ← h.count]
    · rwa [map_eraseIdx]
    · rwa [map_eraseIdx]
    · rw [map_eraseIdx]
      exact h.nodup.sublist (List.eraseIdx_sublist _ _)
  · rw [if_neg hm]
    have hall : ∀ p ∈ live, p.1 ≠ pid := fun p hp he => hm (List.mem_map.mpr ⟨p, hp, he⟩)
    rw [List.filter_eq_self.mpr (by simpa using hall)]
    exact h

end Holds

/-! ## Whole histories -/

namespace ProcessLists

/-- The table holds the attached processes, and the snapshot shows them. -/
structure Shows (s : ProcessLists) (live : List (UInt32 × UInt32)) : Prop where
  table : Holds s.io live
  processes : s.snapshot.processes.take s.snapshot.count = live.map Prod.fst
  groups : s.snapshot.groups.take s.snapshot.count = live.map Prod.snd
  count : s.snapshot.count = live.length

theorem take_setRange_zero {l vs : List UInt32} : (setRange l 0 vs).take vs.length = vs := by
  rw [setRange, List.take_zero, List.nil_append, List.take_left]

theorem shows_sync {s : ProcessLists} {live : List (UInt32 × UInt32)} (h : Holds s.io live) :
    Shows s.syncProcessSnapshot live := by
  have hle := h.length_le
  have hp : ((live.map Prod.fst).take live.length) = live.map Prod.fst := List.take_of_length_le (by simp)
  have hg : ((live.map Prod.snd).take live.length) = live.map Prod.snd := List.take_of_length_le (by simp)
  have hcount : min (live.map Prod.fst).length MAX_PROCESSES = live.length := by
    rw [List.length_map, Nat.min_eq_left hle]
  have hcount' : min live.length (live.map Prod.snd).length = live.length := by rw [List.length_map, Nat.min_self]
  refine ⟨h, ?_, ?_, ?_⟩
  · rw [syncProcessSnapshot, h.take_pids, h.take_groups, ProcessListSnapshot.assign]
    dsimp only
    rw [hcount, hp, ← List.length_map Prod.fst]
    exact take_setRange_zero
  · rw [syncProcessSnapshot, h.take_pids, h.take_groups, ProcessListSnapshot.assign]
    dsimp only
    rw [hcount, hcount', hg, ← List.length_map Prod.snd]
    exact take_setRange_zero
  · rw [syncProcessSnapshot, h.take_pids, h.take_groups, ProcessListSnapshot.assign]
    exact hcount

theorem shows_start (attached : UInt32) : Shows (start attached) (if attached ≠ 0 then [(attached, 0)] else []) := by
  unfold start
  split_ifs
  · exact shows_sync (Holds.empty.add attached 0 (by simp [MAX_PROCESSES]))
  · exact ⟨Holds.empty, rfl, rfl, rfl⟩

theorem Shows.next {s : ProcessLists} {live : List (UInt32 × UInt32)} (h : Shows s live) (msg : ProcessMessage)
    (hle : (liveAfter live msg).length ≤ MAX_PROCESSES) : Shows (s.onMessage msg) (liveAfter live msg) := by
  cases msg with
  | connect process inputSize group =>
    refine shows_sync (h.table.add _ _ fun hm => ?_)
    rw [liveAfter, if_neg hm, List.length_append] at hle
    exact hle
  | disconnect process => exact shows_sync (h.table.remove _)

theorem Shows.run : ∀ (msgs : List ProcessMessage) {s : ProcessLists} {live : List (UInt32 × UInt32)},
    Shows s live → (∀ k, ((msgs.take k).foldl liveAfter live).length ≤ MAX_PROCESSES) →
    Shows (s.run msgs) (msgs.foldl liveAfter live)
  | [], _, _, h, _ => h
  | msg :: msgs, _, _, h, hle => Shows.run msgs (h.next msg (hle 1)) fun k => hle (k + 1)

theorem Shows.copyNewestFirst {s : ProcessLists} {live : List (UInt32 × UInt32)} (h : Shows s live) (capacity : Nat) :
    s.snapshot.copyNewestFirst capacity = (live.map Prod.fst).reverse.take capacity := by
  unfold ProcessListSnapshot.copyNewestFirst
  rw [h.processes, h.count, List.take_reverse, List.length_map]
  dsimp only
  rw [show live.length - min live.length capacity = live.length - capacity by omega]

end ProcessLists

/-! ## The attached processes -/

theorem mem_liveAfter {live : List (UInt32 × UInt32)} {pid : UInt32} {attached : Bool}
    (h : pid ∈ live.map Prod.fst ↔ attached = true) (msg : ProcessMessage) :
    pid ∈ (liveAfter live msg).map Prod.fst ↔ attachedAfter pid attached msg = true := by
  cases msg with
  | connect process inputSize group =>
    rw [attachedAfter, Bool.or_eq_true, ← h, beq_iff_eq, liveAfter]
    split_ifs with hm
    · exact ⟨.inl, fun h' => h'.elim id fun he => he ▸ hm⟩
    · rw [List.map_append, List.mem_append, List.map_singleton, List.mem_singleton, eq_comm (a := pid)]
  | disconnect process =>
    rw [attachedAfter, Bool.and_eq_true, ← h, bne_iff_ne, liveAfter, List.mem_map, List.mem_map]
    constructor
    · rintro ⟨p, hp, rfl⟩
      obtain ⟨hp, hne⟩ := List.mem_filter.mp hp
      exact ⟨⟨p, hp, rfl⟩, (of_decide_eq_true hne).symm⟩
    · rintro ⟨⟨p, hp, rfl⟩, hne⟩
      exact ⟨p, List.mem_filter.mpr ⟨hp, decide_eq_true hne.symm⟩, rfl⟩

theorem mem_foldl_liveAfter {pid : UInt32} : ∀ (msgs : List ProcessMessage) {live : List (UInt32 × UInt32)} {attached : Bool},
    (pid ∈ live.map Prod.fst ↔ attached = true) →
    (pid ∈ (msgs.foldl liveAfter live).map Prod.fst ↔ msgs.foldl (attachedAfter pid) attached = true)
  | [], _, _, h => h
  | msg :: msgs, _, _, h => mem_foldl_liveAfter msgs (mem_liveAfter h msg)

/-- The connections that the messages ask for, in their order. -/
def connections : List ProcessMessage → List (UInt32 × UInt32)
  | [] => []
  | .connect process inputSize group :: msgs => (process.toUInt32, connectProcessGroup inputSize group) :: connections msgs
  | .disconnect _ :: msgs => connections msgs

theorem foldl_liveAfter_sublist : ∀ (msgs : List ProcessMessage) (live : List (UInt32 × UInt32)),
    (msgs.foldl liveAfter live).Sublist (live ++ connections msgs)
  | [], live => by simp [connections]
  | .connect process inputSize group :: msgs, live => by
    rw [List.foldl_cons, connections]
    refine (foldl_liveAfter_sublist msgs _).trans ?_
    rw [liveAfter]
    split_ifs
    · exact List.Sublist.append_left (List.sublist_cons_self _ _) live
    · rw [List.append_assoc]
      exact List.Sublist.refl _
  | .disconnect process :: msgs, live => by
    rw [List.foldl_cons, connections]
    exact (foldl_liveAfter_sublist msgs _).trans (List.Sublist.append_right List.filter_sublist _)

/-- After any messages, with never more than `MAX_PROCESSES` attached: the table,
the snapshot and the answer to GetConsoleProcessList are the attached processes.
These are those whose last message is a CONNECT, in the order in which they
connected, each with the group of its connection. -/
theorem process_list_is_live (attached : UInt32) (msgs : List ProcessMessage)
    (hle : ∀ k, (live attached (msgs.take k)).length ≤ MAX_PROCESSES) :
    let s := ProcessLists.run (.start attached) msgs
    let processes := live attached msgs
    (s.io.processList.take s.io.processCount).zip (s.io.processGroups.take s.io.processCount) = processes ∧
      s.io.processCount = processes.length ∧ s.snapshot.entries = processes ∧
    (processes.map Prod.fst).Nodup ∧
    processes.Sublist ((if attached ≠ 0 then [(attached, 0)] else []) ++ connections msgs) ∧
    (∀ pid, pid ∈ processes.map Prod.fst ↔ msgs.foldl (attachedAfter pid) (attached != 0 && attached == pid) = true) ∧
    ∀ inputSize outputSize, MSG_HEADER + 4 ≤ inputSize → 4 < outputSize →
      getProcessList s.snapshot inputSize outputSize =
        some (processes.length, (processes.map Prod.fst).reverse.take ((outputSize - 4) / 4)) := by
  intro s processes
  have h : s.Shows processes := ProcessLists.Shows.run msgs (ProcessLists.shows_start attached) hle
  refine ⟨?_, h.table.count, ?_, h.table.nodup, foldl_liveAfter_sublist msgs _,
    fun pid => ?_, fun inputSize outputSize hin hout => ?_⟩
  · rw [h.table.take_pids, h.table.take_groups, List.zip_map', List.map_id']
  · rw [ProcessListSnapshot.entries, h.processes, h.groups, List.zip_map', List.map_id']
  · refine mem_foldl_liveAfter msgs ?_
    by_cases ha : attached = 0
    · simp [ha]
    · rw [if_pos ha, List.map_singleton, List.mem_singleton, Bool.and_eq_true, bne_iff_ne, beq_iff_eq, eq_comm (a := pid)]
      exact ⟨fun he => ⟨ha, he⟩, fun he => he.2⟩
  · have hlen := h.table.length_le
    rw [getProcessList, if_neg (by omega), h.count, h.copyNewestFirst]
    unfold messageOutputTailCapacity MSG_HEADER MSG_BODY
    unfold MAX_PROCESSES at hlen
    rw [if_neg (by omega), if_pos hout]
    -- the body has room for more processes than the table
    have htake : (processes.map Prod.fst).reverse.take (min (outputSize - 4) (4096 - (8 + 4)) / 4) =
        (processes.map Prod.fst).reverse.take ((outputSize - 4) / 4) := by
      rw [List.take_eq_take_iff, List.length_reverse, List.length_map]
      omega
    rw [htake]

/-- The first of two processes leaves, and one that left comes back. -/
theorem process_list_is_live_rejoin :
    let msgs := [.connect 8 1072 (some 8), .connect 12 1072 (some 8), .disconnect 8, .connect 8 0 none]
    live 0 msgs = [(12, 8), (8, 0)] ∧
      getProcessList (ProcessLists.run (.start 0) msgs).snapshot 12 8 = some (2, [8]) := by
  intro msgs
  have hle : ∀ k, (live 0 (msgs.take k)).length ≤ MAX_PROCESSES := by
    intro k
    match k with
    | 0 | 1 | 2 | 3 => decide
    | k + 4 =>
      rw [List.take_of_length_le (by simp [msgs])]
      decide
  exact ⟨by decide, ((process_list_is_live 0 msgs hle).2.2.2.2.2.2 12 8 (by decide) (by decide)).trans (by decide)⟩

end Corehost
