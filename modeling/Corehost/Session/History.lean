import Corehost.Input.Model
import Corehost.Lib.Runs
import Mathlib.Data.List.Chain

/-!
# Command history

The model of `command_history_state` (`command_history_state.hpp`) under the
line editor of `pipe_bridge.hpp`, and what a user sees of it: the commands that
are kept, and the line that is shown while they are browsed.

* `Sound`: what holds of a history and the line that is shown;
* `Tracks`: the invariant, against the commands that have been pushed and the
  line that was typed before browsing began;
* `shown_trim_iff`: when a history that becomes shorter still shows its command;
* `history_sound_iff`: when each state of a run is sound.
-/

namespace Corehost

open Lib

/-! ## The model -/

abbrev Command := List Char32

namespace CommandHistory

/-- The commands that are left of a list that is longer than the capacity. -/
def newest (capacity : Nat) (commands : List Command) : List Command := commands.drop (commands.length - capacity)

def setCapacity (h : CommandHistory) (maxCommands : Nat) : CommandHistory :=
  { h with capacity := maxCommands }.trimToCapacity

def clear (h : CommandHistory) : CommandHistory := { h with commands := [] }.resetBrowse

end CommandHistory

/-- A history with the line of the editor, `_cooked_buf`. -/
structure HistoryEditor where
  history : CommandHistory := {}
  cookedBuf : Command := []
deriving DecidableEq, Repr

/-- What changes a history or the line. -/
inductive HistoryEvent
  | push (command : Command)
  | up
  | down
  /-- an edit of the line, and what it leaves -/
  | edit (line : Command)
  | clear
  | setCapacity (maxCommands : Nat)
  /-- `complete_pending`, for a line that is pushed or for a read that is aborted -/
  | complete (command : Option Command)

namespace HistoryEditor

/-- A command that is selected replaces the line. -/
def load (s : HistoryEditor) : Option (Command × CommandHistory) → HistoryEditor
  | some (selected, history) => ⟨history, selected⟩
  | none => s

/-- `history_up`. -/
def historyUp (s : HistoryEditor) : HistoryEditor := s.load (s.history.browseUp s.cookedBuf)

/-- `history_down`. -/
def historyDown (s : HistoryEditor) : HistoryEditor := s.load s.history.browseDown

def handle (s : HistoryEditor) : HistoryEvent → HistoryEditor
  | .push command => { s with history := s.history.push command }
  | .up => s.historyUp
  | .down => s.historyDown
  | .edit line => { history := s.history.breakBrowse, cookedBuf := line }
  | .clear => { s with history := s.history.clear }
  | .setCapacity maxCommands => { s with history := s.history.setCapacity maxCommands }
  | .complete command => { history := ((command.map s.history.push).getD s.history).resetBrowse, cookedBuf := [] }

end HistoryEditor

/-! ## What is kept -/

section Kept

variable {capacity : Nat} {commands log : List Command} {kept : Nat}

theorem CommandHistory.length_newest (capacity : Nat) (commands : List Command) :
    (newest capacity commands).length = min commands.length capacity := by
  rw [newest, List.length_drop]
  omega

/-- A list of commands behind a push: no empty command, and none that repeats
the one in front of it. -/
def appended (commands : List Command) (command : Command) : List Command :=
  if command = [] ∨ commands.getLast? = some command then commands else commands ++ [command]

theorem appended_last {command : Command} (h : commands.getLast? = some command) : appended commands command = commands :=
  if_pos (.inr h)

theorem appended_new {command : Command} (hne : command ≠ []) (h : commands.getLast? ≠ some command) :
    appended commands command = commands ++ [command] := if_neg (not_or.mpr ⟨hne, h⟩)

/-- How many of the newest commands are kept after a push. -/
def keptAfter (capacity : Nat) (log : List Command) (kept : Nat) (command : Command) : Nat :=
  if command = [] then kept else min capacity (max 1 (kept + ((appended log command).length - log.length)))

/-- The history is the end of what has been pushed, and no longer than its capacity. -/
structure KeepsNewest (capacity : Nat) (commands log : List Command) (kept : Nat) : Prop where
  bounded : kept ≤ capacity
  le : kept ≤ log.length
  newest : commands = log.drop (log.length - kept)
  distinct : log.IsChain (· ≠ ·)
  nonempty : [] ∉ log

theorem KeepsNewest.length_eq (h : KeepsNewest capacity commands log kept) : commands.length = kept := by
  have hle := h.le
  rw [h.newest, List.length_drop]
  omega

theorem keepsNewest_new (capacity : Nat) : KeepsNewest capacity [] [] 0 :=
  ⟨Nat.zero_le _, Nat.zero_le _, rfl, .nil, List.not_mem_nil⟩

theorem KeepsNewest.setCapacity (h : KeepsNewest capacity commands log kept) (maxCommands : Nat) :
    KeepsNewest maxCommands (CommandHistory.newest maxCommands commands) log (min kept maxCommands) := by
  have hle := h.le
  refine ⟨Nat.min_le_right _ _, by omega, ?_, h.distinct, h.nonempty⟩
  rw [CommandHistory.newest, h.length_eq, h.newest, List.drop_drop]
  congr 1
  omega

theorem KeepsNewest.log_new (h : KeepsNewest capacity commands log kept) {command : Command} (hne : command ≠ [])
    (hlast : log.getLast? ≠ some command) : (log ++ [command]).IsChain (· ≠ ·) ∧ [] ∉ log ++ [command] := by
  constructor
  · refine h.distinct.append (.singleton _) fun x hx y hy => ?_
    obtain rfl : command = y := Option.some_inj.mp hy
    rintro rfl
    exact hlast hx
  · rw [List.mem_append, List.mem_singleton]
    rintro (hmem | rfl)
    · exact h.nonempty hmem
    · exact hne rfl

/-- The newest command was dropped when there was no room, and is pushed again. -/
theorem KeepsNewest.push_back (h : KeepsNewest capacity commands log 0) {command : Command} (hne : command ≠ [])
    (hlast : log.getLast? = some command) :
    KeepsNewest capacity (CommandHistory.newest capacity (appended commands command)) log (min capacity 1) := by
  obtain rfl : commands = [] := List.length_eq_zero_iff.mp h.length_eq
  obtain ⟨front, rfl⟩ := List.getLast?_eq_some_iff.mp hlast
  have hsum : (front ++ [command]).length = front.length + 1 := List.length_append
  rw [appended_new hne (by rw [List.getLast?_nil]; exact nofun), List.nil_append, CommandHistory.newest, List.length_singleton]
  refine ⟨by omega, by omega, ?_, h.distinct, h.nonempty⟩
  rw [hsum]
  rcases Nat.eq_zero_or_pos capacity with rfl | hpos
  · rw [Nat.zero_min, List.drop_eq_nil_of_le (Nat.le_refl 1), List.drop_eq_nil_of_le (by omega)]
  · rw [Nat.sub_eq_zero_of_le (by omega), show front.length + 1 - min capacity 1 = front.length by omega, List.drop_left,
      List.drop_zero]

theorem KeepsNewest.push_new (h : KeepsNewest capacity commands log kept) {command : Command} (hne : command ≠ [])
    (hlast : log.getLast? ≠ some command) :
    KeepsNewest capacity (CommandHistory.newest capacity (appended commands command)) (log ++ [command])
      (min capacity (kept + 1)) := by
  have hle := h.le
  have hsum : (log ++ [command]).length = log.length + 1 := List.length_append
  have hcommands : commands.getLast? ≠ some command := by
    rw [h.newest, List.getLast?_drop]
    split
    · exact nofun
    · exact hlast
  have happend : commands ++ [command] = (log ++ [command]).drop (log.length - kept) := by
    rw [List.drop_append_of_le_length (by omega), ← h.newest]
  obtain ⟨hdistinct, hnonempty⟩ := h.log_new hne hlast
  refine ⟨by omega, by omega, ?_, hdistinct, hnonempty⟩
  rw [appended_new hne hcommands, CommandHistory.newest, happend, List.drop_drop, List.length_drop]
  congr 1
  omega

theorem KeepsNewest.push (h : KeepsNewest capacity commands log kept) (command : Command) :
    KeepsNewest capacity (CommandHistory.newest capacity (appended commands command)) (appended log command)
      (keptAfter capacity log kept command) := by
  have hbounded := h.bounded
  have hlength := h.length_eq
  have hsame : CommandHistory.newest capacity commands = commands := by
    rw [CommandHistory.newest, Nat.sub_eq_zero_of_le (by omega), List.drop_zero]
  unfold keptAfter
  by_cases hne : command = []
  · rw [if_pos hne, appended, appended, if_pos (.inl hne), if_pos (.inl hne), hsame]
    exact h
  rw [if_neg hne]
  by_cases hlast : log.getLast? = some command
  · rw [appended_last hlast, Nat.sub_self, Nat.add_zero]
    by_cases hzero : kept = 0
    · subst hzero
      exact h.push_back hne hlast
    · have hcommands : commands.getLast? = some command := by
        rw [h.newest, List.getLast?_drop, if_neg (by have := h.le; omega), hlast]
      rw [appended_last hcommands, hsame, show min capacity (max 1 kept) = kept by omega]
      exact h
  · rw [appended_new hne hlast, List.length_append, List.length_singleton,
      show min capacity (max 1 (kept + (log.length + 1 - log.length))) = min capacity (kept + 1) by omega]
    exact h.push_new hne hlast

end Kept

/-! ## A history that becomes shorter -/

namespace CommandHistory

variable {h : CommandHistory} {line : Command} {i : Nat}

theorem trimToCapacity_eq (h : CommandHistory) : h.trimToCapacity.commands = newest h.capacity h.commands ∧
    h.trimToCapacity.capacity = h.capacity ∧
    (∀ i, h.trimToCapacity.browseIndex = some i ↔ h.browseIndex = some i ∧ i < min h.commands.length h.capacity) ∧
    ∀ i, h.trimToCapacity.browseIndex = some i → h.trimToCapacity.savedInput = h.savedInput := by
  have hlength := length_newest h.capacity h.commands
  unfold newest at hlength ⊢
  unfold trimToCapacity
  dsimp only
  cases hi : h.browseIndex with
  | none => exact ⟨rfl, rfl, fun i => ⟨nofun, fun hj => nomatch hj.1⟩, fun _ _ => rfl⟩
  | some j =>
    dsimp only
    split_ifs with hge
    · refine ⟨rfl, rfl, fun i => ⟨nofun, fun ⟨hij, hlt⟩ => ?_⟩, nofun⟩
      obtain rfl := Option.some_inj.mp hij
      omega
    · refine ⟨rfl, rfl, fun i => ⟨fun hij => ⟨hij, ?_⟩, fun hij => hij.1⟩, fun _ _ => rfl⟩
      obtain rfl := Option.some_inj.mp hij
      omega

/-- A history that is short enough stays as it is. -/
theorem trimToCapacity_of_fits (hfits : h.commands.length ≤ h.capacity)
    (hindex : ∀ i, h.browseIndex = some i → i < h.commands.length) : h.trimToCapacity = h := by
  unfold trimToCapacity
  dsimp only
  rw [Nat.sub_eq_zero_of_le hfits, List.drop_zero]
  split
  · rename_i i hi
    rw [if_neg (by have := hindex i hi; omega)]
  · rfl

/-- `push`, without its early returns. -/
theorem push_eq (hfits : h.commands.length ≤ h.capacity) (hindex : ∀ i, h.browseIndex = some i → i < h.commands.length)
    (command : Command) : h.push command =
      { h with commands := appended h.commands command, capacity := h.capacity }.trimToCapacity := by
  have hsame : ({ h with commands := h.commands, capacity := h.capacity } : CommandHistory).trimToCapacity = h :=
    trimToCapacity_of_fits hfits hindex
  rw [push, appended]
  by_cases hsmall : command = [] ∨ h.commands.getLast? = some command
  · rw [if_pos (by simpa using hsmall), if_pos hsmall, hsame]
  · rw [if_neg (by simpa using hsmall), if_neg hsmall]

/-- Where the oldest commands of a list are dropped, the command at the browse
index is the one that was there, or there is none at it any more. -/
def Unshifted (h : CommandHistory) (capacity : Nat) (commands : List Command) : Prop :=
  ∀ i, h.browseIndex = some i → i < capacity → capacity < commands.length →
    commands[i + (commands.length - capacity)]? = h.commands[i]?

/-- A history that becomes shorter still shows its command exactly when the
commands at the browse index are the same. `commands` are those in front of it. -/
theorem shown_trim_iff (hshown : ∀ i, h.browseIndex = some i → h.commands[i]? = some line) {capacity : Nat}
    {commands : List Command} (hfront : h.commands <+: commands) :
    (∀ i, ({ h with commands := commands, capacity := capacity }.trimToCapacity.browseIndex = some i →
        { h with commands := commands, capacity := capacity }.trimToCapacity.commands[i]? = some line)) ↔
      h.Unshifted capacity commands := by
  obtain ⟨hcommands, -, hindex, -⟩ := trimToCapacity_eq { h with commands := commands, capacity := capacity }
  rw [hcommands]
  simp only [hindex]
  rw [newest]
  constructor
  · intro hnew i hi hlt hlong
    have := hnew i ⟨hi, by omega⟩
    rw [List.getElem?_drop] at this
    rw [Nat.add_comm, this, hshown i hi]
  · rintro hun i ⟨hi, hlt⟩
    rw [List.getElem?_drop]
    rcases Nat.lt_or_ge capacity commands.length with hlong | hfits
    · rw [Nat.add_comm, hun i hi (by omega) hlong, hshown i hi]
    · obtain ⟨hin, -⟩ := List.getElem?_eq_some_iff.mp (hshown i hi)
      obtain ⟨rest, rfl⟩ := hfront
      rw [Nat.sub_eq_zero_of_le hfits, Nat.zero_add, ← hshown i hi, List.getElem?_append_left hin]

end CommandHistory

/-! ## The run -/

/-- An editor with what its history and its line are measured against: the
commands that were pushed since the history was cleared, how many of them are
kept, and the line that was typed before browsing began. -/
structure HistoryRun where
  editor : HistoryEditor
  log : List Command := []
  kept : Nat := 0
  typed : Command := []

namespace HistoryRun

variable {r : HistoryRun}

def history (r : HistoryRun) : CommandHistory := r.editor.history

def pushed (r : HistoryRun) (command : Command) : HistoryRun :=
  { r with log := appended r.log command, kept := keptAfter r.history.capacity r.log r.kept command }

def next (r : HistoryRun) (e : HistoryEvent) : HistoryRun :=
  { match e with
    | .push command => r.pushed command
    | .complete (some command) => r.pushed command
    | .up => if r.history.browseIndex = none then { r with typed := r.editor.cookedBuf } else r
    | .clear => { r with log := [], kept := 0 }
    | .setCapacity maxCommands => { r with kept := min r.kept maxCommands }
    | _ => r with editor := r.editor.handle e }

end HistoryRun

/-! ## Browsing -/

namespace HistoryEditor

variable {s : HistoryEditor} {i : Nat}

theorem historyUp_empty (h : s.history.commands = []) : s.historyUp = s := by
  rw [historyUp, CommandHistory.browseUp, if_pos (List.isEmpty_iff.mpr h)]
  rfl

/-- The first step up keeps what was typed. -/
theorem historyUp_begin (hne : s.history.commands ≠ []) (hi : s.history.browseIndex = none) : s.historyUp = {
    history := { s.history with browseIndex := some (s.history.commands.length - 1), savedInput := s.cookedBuf }
    cookedBuf := s.history.commands.getD (s.history.commands.length - 1) [] } := by
  rw [historyUp, CommandHistory.browseUp, if_neg (mt List.isEmpty_iff.mp hne), hi]
  rfl

theorem historyUp_on (hne : s.history.commands ≠ []) (hi : s.history.browseIndex = some i) : s.historyUp = {
    history := { s.history with browseIndex := some (i - 1) }
    cookedBuf := s.history.commands.getD (i - 1) [] } := by
  obtain ⟨⟨commands, capacity, _, savedInput⟩, line⟩ := s
  obtain rfl := hi
  rw [historyUp, CommandHistory.browseUp, if_neg (mt List.isEmpty_iff.mp hne)]
  rfl

theorem historyDown_none (hi : s.history.browseIndex = none) : s.historyDown = s := by
  rw [historyDown, CommandHistory.browseDown, hi]
  rfl

theorem historyDown_on (hi : s.history.browseIndex = some i) (hlt : i + 1 < s.history.commands.length) : s.historyDown = {
    history := { s.history with browseIndex := some (i + 1) }
    cookedBuf := s.history.commands.getD (i + 1) [] } := by
  rw [historyDown, CommandHistory.browseDown, hi]
  dsimp only
  rw [if_pos hlt]
  rfl

/-- Down from the newest command. -/
theorem historyDown_end (hi : s.history.browseIndex = some i) (hlt : ¬ i + 1 < s.history.commands.length) :
    s.historyDown = { history := s.history.resetBrowse, cookedBuf := s.history.savedInput } := by
  rw [historyDown, CommandHistory.browseDown, hi]
  dsimp only
  rw [if_neg hlt]
  rfl

/-- Down past the newest command. -/
theorem historyDown_saved (n : Nat) : ∀ {s : HistoryEditor} {i : Nat}, s.history.browseIndex = some i →
    s.history.commands.length - i = n + 1 → (historyDown^[n + 1] s).cookedBuf = s.history.savedInput := by
  induction n with
  | zero =>
    intro s i hi hn
    rw [Function.iterate_one, historyDown_end hi (by omega)]
  | succ n ih =>
    intro s i hi hn
    rw [Function.iterate_succ_apply, historyDown_on hi (by omega)]
    exact ih (i := i + 1) rfl (by dsimp only; omega)

end HistoryEditor

/-! ## The run -/

namespace HistoryRun

variable {r : HistoryRun}

/-- A new session. -/
def start (capacity : Nat) : HistoryRun where
  editor := { history := { capacity := capacity } }

/-- What holds of a history and the line that is shown. -/
structure Sound (r : HistoryRun) : Prop where
  bounded : r.history.commands.length ≤ r.history.capacity
  newest : r.history.commands = r.log.drop (r.log.length - r.kept)
  distinct : r.history.commands.IsChain (· ≠ ·)
  nonempty : [] ∉ r.history.commands
  shown : ∀ i, r.history.browseIndex = some i → r.history.commands[i]? = some r.editor.cookedBuf
  restores : ∀ i, r.history.browseIndex = some i →
    (HistoryEditor.historyDown^[r.history.commands.length - i] r.editor).cookedBuf = r.typed

/-- The invariant. -/
structure Tracks (r : HistoryRun) : Prop where
  keeps : KeepsNewest r.history.capacity r.history.commands r.log r.kept
  shown : ∀ i, r.history.browseIndex = some i → r.history.commands[i]? = some r.editor.cookedBuf
  saved : ∀ i, r.history.browseIndex = some i → r.history.savedInput = r.typed

theorem Tracks.sound (h : r.Tracks) : r.Sound := by
  have hlength := h.keeps.length_eq
  have hbounded := h.keeps.bounded
  refine ⟨by omega, h.keeps.newest, ?_, ?_, h.shown, fun i hi => ?_⟩
  · rw [h.keeps.newest]
    exact h.keeps.distinct.drop _
  · rw [h.keeps.newest]
    exact fun hmem => h.keeps.nonempty (List.mem_of_mem_drop hmem)
  · obtain ⟨hlt, -⟩ := List.getElem?_eq_some_iff.mp (h.shown i hi)
    rw [← h.saved i hi, ← Nat.sub_add_cancel (show 1 ≤ r.history.commands.length - i by omega)]
    exact HistoryEditor.historyDown_saved _ hi (by change r.history.commands.length - i = _; omega)

theorem tracks_start (capacity : Nat) : (start capacity).Tracks :=
  ⟨keepsNewest_new capacity, nofun, nofun⟩

/-- A step that drops the oldest commands while one of them is shown. -/
def Unshifted (r : HistoryRun) : HistoryEvent → Prop
  | .push command => r.history.Unshifted r.history.capacity (appended r.history.commands command)
  | .setCapacity maxCommands => r.history.Unshifted maxCommands r.history.commands
  | _ => True

/-- A history that is made shorter, or longer and then shorter. -/
theorem Tracks.trim (h : r.Tracks) {capacity kept : Nat} {commands log : List Command} {s : HistoryRun}
    (hs : s.editor = { r.editor with
      history := { r.history with commands := commands, capacity := capacity }.trimToCapacity })
    (htyped : s.typed = r.typed) (hlog : s.log = log) (hkept : s.kept = kept) (hfront : r.history.commands <+: commands)
    (hkeeps : KeepsNewest capacity (CommandHistory.newest capacity commands) log kept)
    (hun : r.history.Unshifted capacity commands) : s.Tracks := by
  obtain ⟨hcommands, hcapacity, hindex, hsaved⟩ :=
    CommandHistory.trimToCapacity_eq { r.history with commands := commands, capacity := capacity }
  have hhistory : s.history = { r.history with commands := commands, capacity := capacity }.trimToCapacity :=
    congrArg HistoryEditor.history hs
  refine ⟨?_, fun i hi => ?_, fun i hi => ?_⟩ <;> rw [hhistory] at *
  · rw [hcommands, hcapacity, hlog, hkept]
    exact hkeeps
  · rw [congrArg HistoryEditor.cookedBuf hs]
    exact (CommandHistory.shown_trim_iff h.shown hfront).mpr hun i hi
  · rw [hsaved i hi, htyped]
    exact h.saved i ((hindex i).mp hi).1

theorem Tracks.fits (h : r.Tracks) : r.history.commands.length ≤ r.history.capacity := by
  rw [h.keeps.length_eq]
  exact h.keeps.bounded

theorem Tracks.index (h : r.Tracks) (i : Nat) (hi : r.history.browseIndex = some i) : i < r.history.commands.length :=
  (List.getElem?_eq_some_iff.mp (h.shown i hi)).1

theorem prefix_appended (commands : List Command) (command : Command) : commands <+: appended commands command := by
  unfold appended
  split
  · exact List.prefix_rfl
  · exact List.prefix_append ..

theorem Tracks.push (h : r.Tracks) {command : Command} (hun : r.Unshifted (.push command)) :
    (r.next (.push command)).Tracks :=
  h.trim (congrArg (fun history => { r.editor with history := history }) (CommandHistory.push_eq h.fits h.index command))
    rfl rfl rfl (prefix_appended ..) (h.keeps.push command) hun

theorem Tracks.setCapacity (h : r.Tracks) {maxCommands : Nat} (hun : r.Unshifted (.setCapacity maxCommands)) :
    (r.next (.setCapacity maxCommands)).Tracks :=
  h.trim rfl rfl rfl rfl List.prefix_rfl (h.keeps.setCapacity maxCommands) hun

/-- The command at a browse index is shown, and what was typed is kept. -/
theorem Tracks.browse (h : r.Tracks) {i : Nat} (hi : i < r.history.commands.length) {s : HistoryRun}
    (hs : s.editor = {
      history := { r.history with browseIndex := some i, savedInput := s.typed }
      cookedBuf := r.history.commands.getD i [] })
    (hlog : s.log = r.log) (hkept : s.kept = r.kept) : s.Tracks := by
  have hhistory : s.history = { r.history with browseIndex := some i, savedInput := s.typed } :=
    congrArg HistoryEditor.history hs
  refine ⟨?_, fun j hj => ?_, fun j _ => ?_⟩
  · rw [hhistory, hlog, hkept]
    exact h.keeps
  · rw [hhistory] at hj ⊢
    obtain rfl := Option.some_inj.mp hj
    rw [congrArg HistoryEditor.cookedBuf hs, List.getD_eq_getElem?_getD, List.getElem?_eq_getElem hi]
    rfl
  · rw [hhistory]

theorem Tracks.up (h : r.Tracks) : (r.next .up).Tracks := by
  cases hi : r.history.browseIndex with
  | none =>
    by_cases hempty : r.history.commands = []
    · have hnext : r.next .up = { r with typed := r.editor.cookedBuf } := by
        rw [HistoryRun.next, if_pos hi]
        exact congrArg (fun editor => { r with typed := r.editor.cookedBuf, editor := editor })
          (HistoryEditor.historyUp_empty hempty)
      rw [hnext]
      exact ⟨h.keeps, h.shown, fun i hj => nomatch hi.symm.trans hj⟩
    · have hpos := List.length_pos_iff.mpr hempty
      have hnext : (r.next .up).typed = r.editor.cookedBuf := by rw [HistoryRun.next, if_pos hi]
      refine h.browse (i := r.history.commands.length - 1) (by omega) ?_ ?_ ?_
      · rw [hnext]
        exact HistoryEditor.historyUp_begin hempty hi
      · rw [HistoryRun.next, if_pos hi]
      · rw [HistoryRun.next, if_pos hi]
  | some i =>
    have hne : ¬ r.history.browseIndex = none := by rw [hi]; exact nofun
    have hlt := h.index i hi
    have hnext : (r.next .up).typed = r.typed := by rw [HistoryRun.next, if_neg hne]
    refine h.browse (i := i - 1) (by omega) ?_ ?_ ?_
    · rw [hnext, ← h.saved i hi]
      exact HistoryEditor.historyUp_on (List.ne_nil_of_length_pos (Nat.zero_lt_of_lt hlt)) hi
    · rw [HistoryRun.next, if_neg hne]
    · rw [HistoryRun.next, if_neg hne]

theorem Tracks.down (h : r.Tracks) : (r.next .down).Tracks := by
  have hnext : r.next .down = { r with editor := r.editor.historyDown } := rfl
  rw [hnext]
  cases hi : r.history.browseIndex with
  | none =>
    rw [HistoryEditor.historyDown_none hi]
    exact h
  | some i =>
    by_cases hlt : i + 1 < r.history.commands.length
    · refine h.browse hlt ?_ rfl rfl
      rw [← h.saved i hi]
      exact HistoryEditor.historyDown_on hi hlt
    · rw [HistoryEditor.historyDown_end hi hlt]
      exact ⟨h.keeps, nofun, nofun⟩

theorem Tracks.complete (h : r.Tracks) (command : Option Command) : (r.next (.complete command)).Tracks := by
  cases command with
  | none => exact ⟨h.keeps, nofun, nofun⟩
  | some command =>
    refine ⟨?_, nofun, nofun⟩
    obtain ⟨hcommands, hcapacity, -, -⟩ :=
      CommandHistory.trimToCapacity_eq { r.history with commands := appended r.history.commands command }
    have hpush := CommandHistory.push_eq h.fits h.index command
    have hkeeps := h.keeps.push command
    change KeepsNewest (r.history.push command).capacity (r.history.push command).commands _ _
    rw [hpush, hcommands, hcapacity]
    exact hkeeps

/-- One step. -/
theorem Tracks.next (h : r.Tracks) {e : HistoryEvent} (hun : r.Unshifted e) : (r.next e).Tracks := by
  cases e with
  | push command => exact h.push hun
  | up => exact h.up
  | down => exact h.down
  | edit line =>
    have hnone : r.history.breakBrowse.browseIndex = none := by
      unfold CommandHistory.breakBrowse
      split_ifs with hi
      · rfl
      · exact Option.not_isSome_iff_eq_none.mp hi
    refine ⟨?_, fun i hi => (nomatch hnone.symm.trans hi), fun i hi => (nomatch hnone.symm.trans hi)⟩
    change KeepsNewest r.history.breakBrowse.capacity r.history.breakBrowse.commands _ _
    unfold CommandHistory.breakBrowse
    split <;> exact h.keeps
  | clear => exact ⟨keepsNewest_new _, nofun, nofun⟩
  | setCapacity maxCommands => exact h.setCapacity hun
  | complete command => exact h.complete command

theorem Tracks.unshifted (h : r.Tracks) {e : HistoryEvent} (hs : (r.next e).Sound) : r.Unshifted e := by
  have hshown := hs.shown
  cases e with
  | push command =>
    refine (CommandHistory.shown_trim_iff h.shown (prefix_appended ..)).mp fun i hi => ?_
    rw [← CommandHistory.push_eq h.fits h.index] at hi ⊢
    exact hshown i hi
  | setCapacity maxCommands => exact (CommandHistory.shown_trim_iff h.shown List.prefix_rfl).mp hshown
  | _ => trivial

/-- From a new session of any capacity, under any pushes, steps up and down,
edits, clears and changes of the capacity: the history and the line are sound in
each state exactly when no step that drops the oldest commands puts another
command at the browse index. -/
theorem history_sound_iff (capacity : Nat) (events : List HistoryEvent) :
    EveryState (fun r e => some (next r e)) Sound (start capacity) events ↔
      EveryStep (fun r e => some (next r e)) Unshifted (start capacity) events := by
  have hkeeps : ∀ r e r', Tracks r → r.Unshifted e → some (next r e) = some r' → r'.Tracks := fun r e r' h hun hr =>
    Option.some_inj.mp hr ▸ h.next hun
  exact everyState_iff_everyStep (fun _ h => h.sound) hkeeps (fun r e h hs => h.unshifted (hs _ rfl)) events
    (tracks_start capacity)

/-- Three commands, the second one shown, and a smaller capacity. -/
theorem shrink_shows_other_command :
    let events := [.push [0x61], .push [0x62], .push [0x63], .up, .up, .setCapacity 2]
    let r := events.foldl next (start 50)
    r.history.browseIndex = some 1 ∧ r.editor.cookedBuf = [0x62] ∧ r.history.commands[1]? = some [0x63] := by
  decide

end HistoryRun

end Corehost
