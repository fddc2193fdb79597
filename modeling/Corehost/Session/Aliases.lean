import Corehost.Lib.KeyedList
import Corehost.Session.Processes
import Mathlib.Data.List.Induction

/-!
# Aliases

The model of the two alias tables of `console_state` (`aliases_by_exe`, and the
flat view `aliases` of the line editor) and of the calls that use them:
`api_l3_add_alias`, which also deletes, `find_alias_value`, which
`api_l3_get_alias` answers from, and `expand_alias`.

A name is a list of UTF-16 units. The conversions that the calls in ANSI use are
parameters.

* `findAliasValue_run`: what a lookup returns after any calls;
* `alias_tables_separate`: the entries of an executable depend on its own calls,
  and the flat view on the last call with a name.
-/

namespace Corehost

open Lib Lib.KeyedList

abbrev WideString := List UInt16

/-- `ascii_case_insensitive_less::lower`. -/
def lowerChar (ch : UInt16) : UInt16 := if 0x41 ≤ ch ∧ ch ≤ 0x5A then ch - 0x41 + 0x61 else ch

/-- Two keys are equivalent in `alias_map` when these are equal. -/
def aliasKey (s : WideString) : List UInt16 := s.map lowerChar

abbrev AliasMap := List (WideString × WideString)

/-- The alias tables of `console_state`. -/
structure AliasState where
  aliases : AliasMap := []
  aliasesByExe : List (WideString × AliasMap) := []
deriving DecidableEq, Repr

/-! ## The calls -/

/-- The conversions between the input code page and UTF-16. A name that is added
and one that is looked up do not take the same one. -/
structure AliasConversions where
  convertAnsiToWstr : Nat → List UInt8 → WideString
  aliasAnsiToWstring : Nat → List UInt8 → WideString
  aliasWstringToAnsi : Nat → WideString → List UInt8

/-- The body of an AddConsoleAlias message: the bytes of the three names, whose
numbers are the length fields; and the input code page in force. -/
structure AddAliasMsg where
  inputCodePage : Nat
  inputSize : Nat
  unicode : Bool
  exe : List UInt8
  source : List UInt8
  target : List UInt8
deriving DecidableEq, Repr

/-- `message_input_tail_capacity`. -/
def messageInputTailCapacity (inputSize apiSize : Nat) : Nat :=
  let pre := MSG_HEADER + apiSize
  if inputSize = 0 then MSG_BODY - pre
  else if inputSize > pre then min (inputSize - pre) (MSG_BODY - pre)
  else 0

/-- The bytes of UTF-16 units, as the machine stores them. -/
def wideOfBytes : List UInt8 → WideString
  | lo :: hi :: rest => (lo.toUInt16 ||| hi.toUInt16 <<< 8) :: wideOfBytes rest
  | _ => []

/-- The names of a message; `none` when it is refused. -/
def AddAliasMsg.names (cs : AliasConversions) (m : AddAliasMsg) : Option (WideString × WideString × WideString) :=
  let wide := cs.convertAnsiToWstr m.inputCodePage
  if m.inputSize < MSG_HEADER + 8 then none
  else if m.exe.length + m.source.length + m.target.length > messageInputTailCapacity m.inputSize 8 then none
  else if m.source.length = 0 then none
  else if m.unicode then
    if (m.exe.length ||| m.source.length ||| m.target.length) % 2 ≠ 0 then none
    else some (wideOfBytes m.exe, wideOfBytes m.source, wideOfBytes m.target)
  else if wide m.source = [] then none
  else some (wide m.exe, wide m.source, wide m.target)

namespace AliasState

def eraseAlias (s : AliasState) (exe source : WideString) : AliasState :=
  { aliases := erase aliasKey s.aliases source
    aliasesByExe :=
      match find aliasKey s.aliasesByExe exe with
      | some table => insertOrAssign aliasKey s.aliasesByExe exe (erase aliasKey table source)
      | none => s.aliasesByExe }

def assignAlias (s : AliasState) (exe source target : WideString) : AliasState :=
  let table := (find aliasKey s.aliasesByExe exe).getD []
  { aliases := insertOrAssign aliasKey s.aliases source target
    aliasesByExe := insertOrAssign aliasKey s.aliasesByExe exe (insertOrAssign aliasKey table source target) }

/-- `api_l3_add_alias`. -/
def addAlias (cs : AliasConversions) (s : AliasState) (m : AddAliasMsg) : AliasState :=
  match m.names cs with
  | none => s
  | some (exe, source, target) => if target = [] then s.eraseAlias exe source else s.assignAlias exe source target

def run (cs : AliasConversions) (msgs : List AddAliasMsg) : AliasState := msgs.foldl (addAlias cs) {}

def findAliasValue (s : AliasState) (exe source : WideString) : Option WideString :=
  match (find aliasKey s.aliasesByExe exe).bind fun table => find aliasKey table source with
  | some value => some value
  | none => find aliasKey s.aliases source

/-- `expand_alias` on the cooked line. -/
def expandAlias (s : AliasState) (cooked : List Nat) : List Nat :=
  if cooked = [] then cooked
  else
    let word := cooked.takeWhile (· ≠ 0x20)
    match find aliasKey s.aliases (word.map UInt16.ofNat) with
    | none => cooked
    | some target => target.map UInt16.toNat ++ cooked.drop word.length

end AliasState

/-- The answers of GetConsoleAlias: the status, `TargetLength` and the bytes of the target with its terminator. -/
inductive GetAliasReply where
  | invalidParameter
  | tooSmall (targetLength : Nat)
  | notFound
  | found (target : List UInt8)
deriving DecidableEq, Repr

structure GetAliasMsg where
  inputCodePage : Nat
  inputSize : Nat
  outputSize : Nat
  unicode : Bool
  exe : List UInt8
  source : List UInt8
deriving DecidableEq, Repr

/-- The executable and the name that a lookup asks for. -/
def GetAliasMsg.names (cs : AliasConversions) (m : GetAliasMsg) : WideString × WideString :=
  let wide := cs.aliasAnsiToWstring m.inputCodePage
  if m.unicode then (wideOfBytes m.exe, wideOfBytes m.source) else (wide m.exe, wide m.source)

/-- The bytes that the machine stores for UTF-16 units. -/
def bytesOfWide (s : WideString) : List UInt8 := s.flatMap fun ch : UInt16 => [ch.toUInt8, (ch >>> 8).toUInt8]

/-- `api_l3_get_alias`. -/
def getAlias (cs : AliasConversions) (s : AliasState) (m : GetAliasMsg) : GetAliasReply :=
  let wide := cs.aliasAnsiToWstring m.inputCodePage
  if m.inputSize < MSG_HEADER + 8 then .invalidParameter
  else if m.exe.length + m.source.length > messageInputTailCapacity m.inputSize 8 then .invalidParameter
  else
    let available := messageOutputTailCapacity m.outputSize 8 - m.exe.length
    if m.unicode then
      if (m.exe.length ||| m.source.length) % 2 ≠ 0 then .invalidParameter
      else if m.source.length = 0 then .notFound
      else
        match s.findAliasValue (wideOfBytes m.exe) (wideOfBytes m.source) with
        | none => .notFound
        | some value =>
          if value.length + 1 ≤ available / 2 then .found (bytesOfWide (value ++ [0]))
          else .tooSmall (u16 (available / 2 * 2))
    else if m.source.length = 0 ∨ wide m.source = [] then .notFound
    else
      match s.findAliasValue (wide m.exe) (wide m.source) with
      | none => .notFound
      | some value =>
        let target := cs.aliasWstringToAnsi m.inputCodePage value
        if target.length + 1 ≤ available then .found (target ++ [0]) else .tooSmall (u16 available)

/-! ## What the calls have assigned -/

/-- The names of the calls that were not refused. -/
def aliasCalls (cs : AliasConversions) (msgs : List AddAliasMsg) : List (WideString × WideString × WideString) :=
  msgs.filterMap (AddAliasMsg.names cs)

/-- The calls for one executable. -/
def callsFor (exe : WideString) (calls : List (WideString × WideString × WideString)) :
    List (WideString × WideString × WideString) := calls.filter fun c => aliasKey c.1 = aliasKey exe

/-- What the last call with a source leaves: its target, nothing when it was a deletion. -/
def lastTarget (calls : List (WideString × WideString × WideString)) (source : WideString) : Option WideString :=
  calls.foldl (fun acc c =>
    if aliasKey c.2.1 = aliasKey source then (if c.2.2 = [] then none else some c.2.2) else acc) none

theorem lastTarget_append (calls : List (WideString × WideString × WideString)) (c : WideString × WideString × WideString)
    (source : WideString) : lastTarget (calls ++ [c]) source =
      if aliasKey c.2.1 = aliasKey source then (if c.2.2 = [] then none else some c.2.2) else lastTarget calls source := by
  rw [lastTarget, List.foldl_append]
  rfl

/-- The entry of an executable. -/
def AliasState.ownAlias (s : AliasState) (exe source : WideString) : Option WideString :=
  (find aliasKey s.aliasesByExe exe).bind fun table => find aliasKey table source

namespace AliasState

variable {cs : AliasConversions}

theorem ownAlias_eraseAlias (s : AliasState) (exe source exe' source' : WideString) :
    (s.eraseAlias exe source).ownAlias exe' source' =
      if aliasKey exe = aliasKey exe' ∧ aliasKey source = aliasKey source' then none else s.ownAlias exe' source' := by
  unfold eraseAlias ownAlias
  by_cases he : aliasKey exe = aliasKey exe'
  · cases ht : find aliasKey s.aliasesByExe exe with
    | none =>
      rw [find_congr _ he] at ht
      simp only [ht, Option.bind_none, ite_self]
    | some table =>
      dsimp only
      rw [find_insertOrAssign, if_pos he, Option.bind_some, find_erase, ← find_congr _ he, ht, Option.bind_some]
      simp only [he, true_and]
  · cases ht : find aliasKey s.aliasesByExe exe with
    | none => rw [if_neg fun h => he h.1]
    | some table =>
      dsimp only
      rw [find_insertOrAssign, if_neg he, if_neg fun h => he h.1]

theorem ownAlias_assignAlias (s : AliasState) (exe source target exe' source' : WideString) :
    (s.assignAlias exe source target).ownAlias exe' source' =
      if aliasKey exe = aliasKey exe' ∧ aliasKey source = aliasKey source' then some target
      else s.ownAlias exe' source' := by
  unfold assignAlias ownAlias
  dsimp only
  rw [find_insertOrAssign]
  by_cases he : aliasKey exe = aliasKey exe'
  · rw [if_pos he, Option.bind_some, find_insertOrAssign, find_congr _ he]
    simp only [he, true_and]
    cases find aliasKey s.aliasesByExe exe' <;> rfl
  · rw [if_neg he, if_neg fun h => he h.1]

/-- The tables hold what the calls have assigned. -/
structure Reflects (s : AliasState) (calls : List (WideString × WideString × WideString)) : Prop where
  own (exe source : WideString) : s.ownAlias exe source = lastTarget (callsFor exe calls) source
  shared (source : WideString) : find aliasKey s.aliases source = lastTarget calls source

theorem Reflects.addAlias {s : AliasState} {msgs : List AddAliasMsg} (h : Reflects s (aliasCalls cs msgs))
    (m : AddAliasMsg) : Reflects (s.addAlias cs m) (aliasCalls cs (msgs ++ [m])) := by
  unfold AliasState.addAlias
  cases hm : m.names cs with
  | none =>
    have hcalls : aliasCalls cs (msgs ++ [m]) = aliasCalls cs msgs := by
      simp [aliasCalls, hm]
    rwa [hcalls]
  | some names =>
    obtain ⟨exe, source, target⟩ := names
    have hcalls : aliasCalls cs (msgs ++ [m]) = aliasCalls cs msgs ++ [(exe, source, target)] := by
      simp [aliasCalls, hm]
    have hown (exe' source' : WideString) :
        lastTarget (callsFor exe' (aliasCalls cs msgs ++ [(exe, source, target)])) source' =
        if aliasKey exe = aliasKey exe' ∧ aliasKey source = aliasKey source' then (if target = [] then none else some target)
        else lastTarget (callsFor exe' (aliasCalls cs msgs)) source' := by
      rw [callsFor, List.filter_append]
      by_cases he : aliasKey exe = aliasKey exe'
      · rw [List.filter_cons_of_pos (by simpa using he), List.filter_nil, lastTarget_append]
        simp only [he, true_and]
        rfl
      · rw [List.filter_cons_of_neg (by simpa using he), List.filter_nil, List.append_nil, if_neg fun h => he h.1]
        rfl
    rw [hcalls]
    dsimp only
    split_ifs with ht
    · refine ⟨fun exe' source' => ?_, fun source' => ?_⟩
      · rw [ownAlias_eraseAlias, hown, if_pos ht, h.own]
      · rw [lastTarget_append, eraseAlias, find_erase, h.shared]
        simp only [ht, if_true]
    · refine ⟨fun exe' source' => ?_, fun source' => ?_⟩
      · rw [ownAlias_assignAlias, hown, if_neg ht, h.own]
      · rw [lastTarget_append, assignAlias, find_insertOrAssign, h.shared]
        simp only [ht, if_false]

variable (cs) in
theorem reflects_run (msgs : List AddAliasMsg) : Reflects (run cs msgs) (aliasCalls cs msgs) := by
  induction msgs using List.reverseRecOn with
  | nil => exact ⟨fun _ _ => rfl, fun _ => rfl⟩
  | append_singleton msgs m ih =>
    rw [run, List.foldl_append]
    exact ih.addAlias m

theorem findAliasValue_run (msgs : List AddAliasMsg) (exe source : WideString) :
    (run cs msgs).findAliasValue exe source =
      (lastTarget (callsFor exe (aliasCalls cs msgs)) source).or (lastTarget (aliasCalls cs msgs) source) := by
  have h := reflects_run cs msgs
  rw [← h.own, ← h.shared, findAliasValue, ownAlias]
  split
  · rename_i value hv
    rw [hv, Option.some_or]
  · rename_i hv
    rw [hv, Option.none_or]

end AliasState

/-- The line with its first word replaced by what `target` gives for it. -/
def expandWith (target : WideString → Option WideString) (cooked : List Nat) : List Nat :=
  let word := cooked.takeWhile (· ≠ 0x20)
  if cooked = [] then cooked
  else (target (word.map UInt16.ofNat)).elim cooked fun t => t.map UInt16.toNat ++ cooked.drop word.length

/-- What a lookup and the expansion of a line return, after any calls. An
executable whose own last call with a name was an addition sees nothing of the
calls for other executables; otherwise the lookup returns what the last call
with the name left, for whichever executable, as the expansion always does. -/
theorem alias_tables_separate (cs : AliasConversions) (msgs : List AddAliasMsg) :
    (∀ exe source, (AliasState.run cs msgs).findAliasValue exe source =
      (lastTarget (callsFor exe (aliasCalls cs msgs)) source).or (lastTarget (aliasCalls cs msgs) source)) ∧
    (∀ cooked, (AliasState.run cs msgs).expandAlias cooked = expandWith (lastTarget (aliasCalls cs msgs)) cooked) ∧
    ∀ (m : GetAliasMsg) (msgs' : List AddAliasMsg),
      callsFor (m.names cs).1 (aliasCalls cs msgs) = callsFor (m.names cs).1 (aliasCalls cs msgs') →
      lastTarget (callsFor (m.names cs).1 (aliasCalls cs msgs)) (m.names cs).2 ≠ none →
      getAlias cs (AliasState.run cs msgs) m = getAlias cs (AliasState.run cs msgs') m := by
  refine ⟨AliasState.findAliasValue_run msgs, fun cooked => ?_, fun m msgs' hcalls hown => ?_⟩
  · unfold AliasState.expandAlias expandWith
    dsimp only
    rw [(AliasState.reflects_run cs msgs).shared]
    cases lastTarget (aliasCalls cs msgs) ((cooked.takeWhile (· ≠ 0x20)).map UInt16.ofNat) <;> rfl
  · have hsame : (AliasState.run cs msgs).findAliasValue (m.names cs).1 (m.names cs).2 =
        (AliasState.run cs msgs').findAliasValue (m.names cs).1 (m.names cs).2 := by
      rw [AliasState.findAliasValue_run, AliasState.findAliasValue_run, ← hcalls]
      obtain ⟨t, ht⟩ := Option.ne_none_iff_exists'.mp hown
      rw [ht, Option.some_or, Option.some_or]
    unfold getAlias
    unfold GetAliasMsg.names at hsame
    cases hu : m.unicode with
    | true =>
      rw [hu, if_pos rfl] at hsame
      simp only [hsame, if_true]
    | false =>
      rw [hu, if_neg Bool.false_ne_true] at hsame
      simp only [hsame, Bool.false_eq_true, if_false]

/-- Conversions of Latin-1, whatever the code page is. -/
def latinConversions : AliasConversions where
  convertAnsiToWstr := fun _ bytes => bytes.map UInt8.toUInt16
  aliasAnsiToWstring := fun _ bytes => bytes.map UInt8.toUInt16
  aliasWstringToAnsi := fun _ s => s.map UInt16.toUInt8

/-- `b.exe`, in ANSI, keeps its own alias `x` when `a.exe` deletes its own. -/
theorem alias_tables_separate_own :
    let add : AddAliasMsg := ⟨0, 20, false, [0x62], [0x78], [0x79, 0x7A]⟩
    let delete : AddAliasMsg := ⟨0, 20, true, [0x61, 0], [0x58, 0], []⟩
    getAlias latinConversions (AliasState.run latinConversions [add, delete]) ⟨0, 18, 20, false, [0x62], [0x78]⟩ =
      .found [0x79, 0x7A, 0] :=
  ((alias_tables_separate latinConversions _).2.2 ⟨0, 18, 20, false, [0x62], [0x78]⟩
    [⟨0, 20, false, [0x62], [0x78], [0x79, 0x7A]⟩] (by decide) (by decide)).trans (by decide)

/-- An alias of `b.exe` is found for `a.exe` and expanded, though there is no
call for `a.exe`; and when `a.exe` deletes the name, it is no longer expanded. -/
theorem alias_seen_by_other_exe :
    let cs := latinConversions
    let add : AddAliasMsg := ⟨0, 22, true, [0x62, 0], [0x78, 0], [0x79, 0]⟩
    let delete : AddAliasMsg := ⟨0, 20, true, [0x61, 0], [0x78, 0], []⟩
    (callsFor [0x61] (aliasCalls cs [add]) = callsFor [0x61] (aliasCalls cs []) ∧
      (AliasState.run cs [add]).findAliasValue [0x61] [0x78] = some [0x79] ∧
      (AliasState.run cs []).findAliasValue [0x61] [0x78] = none) ∧
    callsFor [0x62] (aliasCalls cs [add, delete]) = callsFor [0x62] (aliasCalls cs [add]) ∧
      (AliasState.run cs [add, delete]).expandAlias [0x78] = [0x78] ∧
      (AliasState.run cs [add]).expandAlias [0x78] = [0x79] := by
  decide

end Corehost
