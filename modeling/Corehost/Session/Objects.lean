import Mathlib.Data.List.Nodup
import Mathlib.Data.UInt

/-!
# The objects of a session

The model of the object table of `io_state` (`io_state.hpp`): what
CREATE_OBJECT and CLOSE_OBJECT do to it, and the kind that `kind_from_object`
finds for a handle value.

`liveAfter` says which objects are open. Main results:

* `Holds.next`: the table lists the open objects, and each of the three ids of
  the latest objects is 0 or the one of an open object of its kind;
* `kind_of_open_object`: an open object has the kind it was created with, and
  any other value is a handle of the session itself or unknown.
-/

namespace Corehost

/-- `object_kind`. -/
inductive ObjectKind where
  | unknown | input | output | alternateOutput
deriving DecidableEq, Repr

/-- `open_object`. The handle that is kept with it is its id. -/
structure OpenObject where
  id : UInt64
  kind : ObjectKind
deriving DecidableEq, Repr

/-- The objects of `io_state`. `condrvInput` and `condrvOutput` are the values
of the handles of the session, 0 as long as there is none. -/
structure ObjectTable where
  condrvInput : UInt64 := 0
  condrvOutput : UInt64 := 0
  inputId : UInt64 := 0
  outputId : UInt64 := 0
  alternateOutputId : UInt64 := 0
  openObjects : List OpenObject := []
deriving DecidableEq, Repr

def CD_IO_OBJECT_TYPE_CURRENT_INPUT : UInt32 := 0x01
def CD_IO_OBJECT_TYPE_CURRENT_OUTPUT : UInt32 := 0x02
def CD_IO_OBJECT_TYPE_NEW_OUTPUT : UInt32 := 0x03
def CD_IO_OBJECT_TYPE_GENERIC : UInt32 := 0x04

def GENERIC_READ : UInt32 := 0x80000000
def GENERIC_WRITE : UInt32 := 0x40000000

/-- `sizeof(CD_CREATE_OBJECT_INFORMATION)`. -/
def CREATE_OBJECT_INFORMATION_SIZE : Nat := 12

/-- The messages, with `handle` for the value of the handle that
`create_client_handle` returns if it is called. -/
inductive ObjectMessage where
  | createObject (inputSize : Nat) (objectType desiredAccess : UInt32) (handle : UInt64)
  | closeObject (object : UInt64)
deriving DecidableEq, Repr

/-- The type, once a generic one has been derived from the access. -/
def requestedType (objectType desiredAccess : UInt32) : UInt32 :=
  if objectType = CD_IO_OBJECT_TYPE_GENERIC then
    if desiredAccess &&& (GENERIC_READ ||| GENERIC_WRITE) = GENERIC_READ then CD_IO_OBJECT_TYPE_CURRENT_INPUT
    else if desiredAccess &&& (GENERIC_READ ||| GENERIC_WRITE) = GENERIC_WRITE then CD_IO_OBJECT_TYPE_CURRENT_OUTPUT
    else objectType
  else objectType

namespace ObjectTable

/-- Whether the request succeeds, and the table. -/
def handleCreateObject (t : ObjectTable) (inputSize : Nat) (objectType desiredAccess : UInt32) (handle : UInt64) :
    Bool × ObjectTable :=
  if inputSize < CREATE_OBJECT_INFORMATION_SIZE then (false, t)
  else
    let type := requestedType objectType desiredAccess
    if type = CD_IO_OBJECT_TYPE_CURRENT_INPUT then
      (true, { t with inputId := handle, openObjects := t.openObjects ++ [⟨handle, .input⟩] })
    else if type = CD_IO_OBJECT_TYPE_CURRENT_OUTPUT then
      (true, { t with outputId := handle, openObjects := t.openObjects ++ [⟨handle, .output⟩] })
    else if type = CD_IO_OBJECT_TYPE_NEW_OUTPUT then
      (true, { t with alternateOutputId := handle, openObjects := t.openObjects ++ [⟨handle, .alternateOutput⟩] })
    else (false, t)

def handleCloseObject (t : ObjectTable) (id : UInt64) : ObjectTable :=
  { t with
    inputId := if id = t.inputId then 0 else t.inputId
    outputId := if id = t.outputId then 0 else t.outputId
    alternateOutputId := if id = t.alternateOutputId then 0 else t.alternateOutputId
    openObjects := t.openObjects.filter fun o => o.id ≠ id }

def kindFromObject (t : ObjectTable) (id : UInt64) : ObjectKind :=
  if id ≠ 0 ∧ id = t.inputId then .input
  else if id ≠ 0 ∧ id = t.outputId then .output
  else if id ≠ 0 ∧ id = t.alternateOutputId then .alternateOutput
  else
    match t.openObjects.find? fun o => o.id = id with
    | some o => o.kind
    | none =>
      if id ≠ 0 ∧ id = t.condrvInput then .input
      else if id ≠ 0 ∧ id = t.condrvOutput then .output
      else .unknown

def onMessage (t : ObjectTable) : ObjectMessage → ObjectTable
  | .createObject inputSize objectType desiredAccess handle =>
    (t.handleCreateObject inputSize objectType desiredAccess handle).2
  | .closeObject object => t.handleCloseObject object

def run (t : ObjectTable) (msgs : List ObjectMessage) : ObjectTable := msgs.foldl onMessage t

end ObjectTable

/-! ## The open objects -/

namespace ObjectMessage

/-- The object that a message creates. -/
def created : ObjectMessage → Option OpenObject
  | .createObject inputSize objectType desiredAccess handle =>
    if inputSize < CREATE_OBJECT_INFORMATION_SIZE then none
    else
      let type := requestedType objectType desiredAccess
      if type = CD_IO_OBJECT_TYPE_CURRENT_INPUT then some ⟨handle, .input⟩
      else if type = CD_IO_OBJECT_TYPE_CURRENT_OUTPUT then some ⟨handle, .output⟩
      else if type = CD_IO_OBJECT_TYPE_NEW_OUTPUT then some ⟨handle, .alternateOutput⟩
      else none
  | .closeObject _ => none

/-- The objects that are open after the message. -/
def liveAfter (live : List OpenObject) (m : ObjectMessage) : List OpenObject :=
  match m with
  | .closeObject object => live.filter fun o => o.id ≠ object
  | m => live ++ m.created.toList

end ObjectMessage

/-- The objects that are open after the messages. -/
def liveObjects (msgs : List ObjectMessage) : List OpenObject := msgs.foldl ObjectMessage.liveAfter []

/-- What the system promises of its handles: the value of a new one is not 0,
and neither an open object nor a handle of the session has it. -/
def HandlesFresh (own : List UInt64) (live : List OpenObject) : List ObjectMessage → Prop
  | [] => True
  | m :: msgs => (∀ o ∈ m.created, o.id ≠ 0 ∧ o.id ∉ live.map OpenObject.id ∧ o.id ∉ own) ∧
      HandlesFresh own (m.liveAfter live) msgs

namespace ObjectTable

/-- The table lists the objects that are open; an id is 0 or the one of an open object of its kind. -/
structure Holds (t : ObjectTable) (live : List OpenObject) : Prop where
  objects : t.openObjects = live
  nodup : (live.map OpenObject.id).Nodup
  fresh : ∀ o ∈ live, o.id ≠ 0 ∧ o.id ∉ [t.condrvInput, t.condrvOutput]
  input : t.inputId ≠ 0 → ⟨t.inputId, .input⟩ ∈ live
  output : t.outputId ≠ 0 → ⟨t.outputId, .output⟩ ∈ live
  alternateOutput : t.alternateOutputId ≠ 0 → ⟨t.alternateOutputId, .alternateOutput⟩ ∈ live

variable {t : ObjectTable} {live : List OpenObject}

theorem eq_of_nodup (h : (live.map OpenObject.id).Nodup) {o o' : OpenObject} (ho : o ∈ live) (ho' : o' ∈ live)
    (hid : o.id = o'.id) : o = o' :=
  List.inj_on_of_nodup_map h ho ho' hid

/-- A new object, with the id of its kind. -/
theorem Holds.push (h : t.Holds live) {o : OpenObject}
    (ho : o.id ≠ 0 ∧ o.id ∉ live.map OpenObject.id ∧ o.id ∉ [t.condrvInput, t.condrvOutput]) {t' : ObjectTable}
    (hown : t'.condrvInput = t.condrvInput ∧ t'.condrvOutput = t.condrvOutput)
    (hobjects : t'.openObjects = t.openObjects ++ [o])
    (hi : t'.inputId = t.inputId ∨ o = ⟨t'.inputId, .input⟩) (hu : t'.outputId = t.outputId ∨ o = ⟨t'.outputId, .output⟩)
    (ha : t'.alternateOutputId = t.alternateOutputId ∨ o = ⟨t'.alternateOutputId, .alternateOutput⟩) :
    t'.Holds (live ++ [o]) := by
  have hkeep {id id' : UInt64} {k : ObjectKind} (hid : id' = id ∨ o = ⟨id', k⟩) (hold : id ≠ 0 → ⟨id, k⟩ ∈ live)
      (hne : id' ≠ 0) : ⟨id', k⟩ ∈ live ++ [o] := by
    rcases hid with rfl | rfl
    · exact List.mem_append_left _ (hold hne)
    · exact List.mem_append_right _ List.mem_cons_self
  refine ⟨by rw [hobjects, h.objects], ?_, ?_, hkeep hi h.input, hkeep hu h.output, hkeep ha h.alternateOutput⟩
  · rw [List.map_append, List.map_singleton, List.nodup_append]
    exact ⟨h.nodup, List.nodup_singleton _, fun a ha b hb hab => ho.2.1 (by rw [← List.mem_singleton.mp hb, ← hab]; exact ha)⟩
  · intro p hp
    rw [hown.1, hown.2]
    rcases List.mem_append.mp hp with hp | hp
    · exact h.fresh p hp
    · rw [List.mem_singleton.mp hp]
      exact ⟨ho.1, ho.2.2⟩

theorem Holds.close (h : t.Holds live) (id : UInt64) :
    (t.handleCloseObject id).Holds (live.filter fun o => o.id ≠ id) := by
  have hkeep {id' : UInt64} {k : ObjectKind} (hold : id' ≠ 0 → ⟨id', k⟩ ∈ live) (hne : (if id = id' then 0 else id') ≠ 0) :
      ⟨if id = id' then 0 else id', k⟩ ∈ live.filter fun o => o.id ≠ id := by
    by_cases heq : id = id'
    · rw [if_pos heq] at hne
      exact absurd rfl hne
    · rw [if_neg heq] at hne ⊢
      exact List.mem_filter.mpr ⟨hold hne, by simpa using Ne.symm heq⟩
  refine ⟨?_, h.nodup.sublist (List.filter_sublist.map _), fun o ho => h.fresh o (List.mem_of_mem_filter ho),
    hkeep h.input, hkeep h.output, hkeep h.alternateOutput⟩
  rw [handleCloseObject, h.objects]

/-- What a message changes. -/
theorem Holds.next (h : t.Holds live) {m : ObjectMessage}
    (hm : ∀ o ∈ m.created, o.id ≠ 0 ∧ o.id ∉ live.map OpenObject.id ∧ o.id ∉ [t.condrvInput, t.condrvOutput]) :
    (t.onMessage m).Holds (m.liveAfter live) ∧
      (t.onMessage m).condrvInput = t.condrvInput ∧ (t.onMessage m).condrvOutput = t.condrvOutput := by
  cases m with
  | closeObject object => exact ⟨h.close object, rfl, rfl⟩
  | createObject inputSize objectType desiredAccess handle =>
    unfold onMessage ObjectMessage.liveAfter
    unfold ObjectMessage.created at hm ⊢
    unfold handleCreateObject
    dsimp only at hm ⊢
    split_ifs at hm ⊢
    · exact ⟨by simpa using h, rfl, rfl⟩
    · exact ⟨h.push (hm _ rfl) ⟨rfl, rfl⟩ rfl (.inr rfl) (.inl rfl) (.inl rfl), rfl, rfl⟩
    · exact ⟨h.push (hm _ rfl) ⟨rfl, rfl⟩ rfl (.inl rfl) (.inr rfl) (.inl rfl), rfl, rfl⟩
    · exact ⟨h.push (hm _ rfl) ⟨rfl, rfl⟩ rfl (.inl rfl) (.inl rfl) (.inr rfl), rfl, rfl⟩
    · exact ⟨by simpa using h, rfl, rfl⟩

theorem Holds.run : ∀ (msgs : List ObjectMessage) {t : ObjectTable} {live : List OpenObject}, t.Holds live →
    HandlesFresh [t.condrvInput, t.condrvOutput] live msgs →
    (t.run msgs).Holds (msgs.foldl ObjectMessage.liveAfter live) ∧
      (t.run msgs).condrvInput = t.condrvInput ∧ (t.run msgs).condrvOutput = t.condrvOutput
  | [], _, _, h, _ => ⟨h, rfl, rfl⟩
  | m :: msgs, t, live, h, hf => by
    obtain ⟨hnext, hin, hout⟩ := h.next hf.1
    have hrest := hf.2
    rw [← hin, ← hout] at hrest
    obtain ⟨hrun, hin', hout'⟩ := Holds.run msgs hnext hrest
    exact ⟨hrun, hin'.trans hin, hout'.trans hout⟩

theorem find_of_mem (h : t.Holds live) {o : OpenObject} (ho : o ∈ live) :
    t.openObjects.find? (fun p => p.id = o.id) = some o := by
  rw [h.objects]
  rcases hf : live.find? fun p => p.id = o.id with _ | p
  · have hne := List.find?_eq_none.mp hf o ho
    simp at hne
  · have hid : p.id = o.id := by simpa using List.find?_some hf
    exact hf.trans (congrArg some (eq_of_nodup h.nodup (List.mem_of_find?_eq_some hf) ho hid))

/-- The kind of an open object. -/
theorem Holds.kind_of_mem (h : t.Holds live) {o : OpenObject} (ho : o ∈ live) : t.kindFromObject o.id = o.kind := by
  have hkind {id : UInt64} {k : ObjectKind} (hid : o.id ≠ 0 ∧ o.id = id) (hold : id ≠ 0 → ⟨id, k⟩ ∈ live) : k = o.kind :=
    congrArg OpenObject.kind (eq_of_nodup h.nodup (hold (hid.2 ▸ hid.1)) ho hid.2.symm)
  unfold kindFromObject
  rw [find_of_mem h ho]
  split_ifs with h1 h2 h3
  · exact hkind h1 h.input
  · exact hkind h2 h.output
  · exact hkind h3 h.alternateOutput
  all_goals rfl

/-- The kind of a value that no open object has. -/
theorem Holds.kind_of_not_mem (h : t.Holds live) {v : UInt64} (hv : v ∉ live.map OpenObject.id) :
    t.kindFromObject v =
      if v ≠ 0 ∧ v = t.condrvInput then .input else if v ≠ 0 ∧ v = t.condrvOutput then .output else .unknown := by
  have hno {id : UInt64} {k : ObjectKind} (hold : id ≠ 0 → ⟨id, k⟩ ∈ live) : ¬ (v ≠ 0 ∧ v = id) := by
    rintro ⟨hne, rfl⟩
    exact hv (List.mem_map_of_mem (hold hne))
  have hnone : t.openObjects.find? (fun o => o.id = v) = none := by
    rw [h.objects, List.find?_eq_none]
    intro o ho
    simpa using fun heq : o.id = v => hv (heq ▸ List.mem_map_of_mem ho)
  rw [kindFromObject, if_neg (hno h.input), if_neg (hno h.output), if_neg (hno h.alternateOutput), hnone]

end ObjectTable

/-- After any messages, an open object has the kind it was created with. Every
other value is unknown, the handles of the session apart. -/
theorem kind_of_open_object (condrvInput condrvOutput : UInt64) (msgs : List ObjectMessage)
    (h : HandlesFresh [condrvInput, condrvOutput] [] msgs) :
    let t := ({ condrvInput, condrvOutput } : ObjectTable).run msgs
    (∀ o ∈ liveObjects msgs, t.kindFromObject o.id = o.kind) ∧
      ∀ v, v ∉ (liveObjects msgs).map OpenObject.id → t.kindFromObject v =
        if v ≠ 0 ∧ v = condrvInput then .input else if v ≠ 0 ∧ v = condrvOutput then .output else .unknown := by
  intro t
  have hstart : ({ condrvInput, condrvOutput } : ObjectTable).Holds [] :=
    ⟨rfl, List.nodup_nil, by simp, fun h => absurd rfl h, fun h => absurd rfl h, fun h => absurd rfl h⟩
  obtain ⟨hrun, hin, hout⟩ := hstart.run msgs h
  refine ⟨fun o ho => hrun.kind_of_mem ho, fun v hv => ?_⟩
  have hkind := hrun.kind_of_not_mem hv
  rwa [hin, hout] at hkind

/-- Two outputs of which the newer one is closed, and its value reused for an input. -/
theorem kind_of_open_object_reused :
    let t := ({ condrvInput := 4, condrvOutput := 8 } : ObjectTable).run [.createObject 12 2 0 12, .createObject 12 2 0 16,
      .closeObject 16, .createObject 12 4 0x80000000 16]
    t.kindFromObject 12 = .output ∧ t.kindFromObject 16 = .input ∧ t.kindFromObject 20 = .unknown := by
  intro t
  have h := kind_of_open_object 4 8 [.createObject 12 2 0 12, .createObject 12 2 0 16, .closeObject 16,
    .createObject 12 4 0x80000000 16] (by simp only [HandlesFresh]; decide)
  exact ⟨h.1 ⟨12, .output⟩ (by decide), h.1 ⟨16, .input⟩ (by decide), h.2 20 (by decide)⟩

/-- No object has been created, and the input of the session is known. -/
theorem kind_of_session_handle :
    HandlesFresh [4, 8] [] [] ∧ (4 : UInt64) ∉ (liveObjects []).map OpenObject.id ∧
      (({ condrvInput := 4, condrvOutput := 8 } : ObjectTable).run []).kindFromObject 4 = .input := by
  exact ⟨trivial, by decide, by decide⟩

end Corehost
