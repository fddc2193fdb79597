import Corehost.Input.Bridge

/-!
# What key events change

Most of the functions under `process_input` only write key events and edit the
line; all that they can complete is a GetConsoleInput. `Emits` says this, and
there is a lemma for each of them, so that no later file unfolds them:

* `emits_emitRecord`: one record;
* `emits_emitRawSequenceAsInput`, `emits_processInputText`: a sequence of characters;
* `emits_handleMessage`: every message but the line terminators and the Win32 keys.
-/

namespace Corehost

namespace PipeBridge

variable {δ : Type} {host : Host δ} {b c d : PipeBridge δ}

/-- The new state differs in the records, the line and the expected cursor
reports only, or a GetConsoleInput was completed besides. -/
inductive Emits (b : PipeBridge δ) : PipeBridge δ → Prop
  | edit (inp : List InputRecord) (line : CookedLine) (inherit : Bool) (sync : Nat) :
    Emits b { b with inp, line, pendingInheritCursor := inherit, resizeSyncOutstanding := sync }
  | complete (inp : List InputRecord) (line : CookedLine) (inherit : Bool) (sync : Nat) {m : MsgRef}
    (h : b.pending = .consoleInput m) (data : CompletionData) :
    Emits b { b.finish m statusSuccess data with
      inp, line, pendingInheritCursor := inherit, resizeSyncOutstanding := sync }

theorem Emits.refl (b : PipeBridge δ) : Emits b b :=
  .edit b.inp b.line b.pendingInheritCursor b.resizeSyncOutstanding

/-- The completion of the request in buffer `m`. -/
def completion (b : PipeBridge δ) (m : MsgRef) (status : Nat) (data : CompletionData) : Completion :=
  { identifier := (b.msgs m).identifier, status, data }

theorem finish_eq (b : PipeBridge δ) (m : MsgRef) (status : Nat) (data : CompletionData) :
    b.finish m status data = { b with
      pending := .none
      processControlZ := false
      msgs := Function.update b.msgs m { b.msgs m with complete := some (b.completion m status data) }
      completed := if b.serving = some m then b.completed else b.completed ++ [b.completion m status data] } := by
  unfold finish
  by_cases h : b.serving = some m
  · simp [h, setMsg, IoMsg.prepareCompletion, completion]
  · simp [h, setMsg, IoMsg.prepareCompletion, completion]

@[simp] theorem finish_pending (m : MsgRef) (status : Nat) (data : CompletionData) :
    (b.finish m status data).pending = .none := by
  rw [finish_eq]

theorem finish_edit (m : MsgRef) (status : Nat) (data : CompletionData) (inp inp' : List InputRecord)
    (line line' : CookedLine) (inherit inherit' : Bool) (sync sync' : Nat) :
    { finish { b with inp, line, pendingInheritCursor := inherit, resizeSyncOutstanding := sync } m status data with
        inp := inp', line := line', pendingInheritCursor := inherit', resizeSyncOutstanding := sync' } =
      { b.finish m status data with
        inp := inp', line := line', pendingInheritCursor := inherit', resizeSyncOutstanding := sync' } := by
  rw [finish_eq, finish_eq]
  rfl

theorem Emits.trans (h : Emits b c) (h' : Emits c d) : Emits b d := by
  cases h with
  | edit inp line inherit sync =>
    cases h' with
    | edit inp' line' inherit' sync' => exact .edit inp' line' inherit' sync'
    | @complete inp' line' inherit' sync' m hp data =>
      have e := finish_edit (b := b) m statusSuccess data inp inp' line line' inherit inherit' sync sync'
      have hb : b.pending = .consoleInput m := hp
      exact e ▸ .complete inp' line' inherit' sync' hb data
  | complete inp line inherit sync hp data =>
    cases h' with
    | edit inp' line' inherit' sync' => exact .complete inp' line' inherit' sync' hp data
    | complete inp' line' inherit' sync' hp' data' =>
      have : Pending.none = .consoleInput _ := (finish_pending _ _ data).symm.trans hp'
      cases this

/-- What key events leave alone. -/
structure SameInput (b c : PipeBridge δ) : Prop where
  inputMode : c.inputMode = b.inputMode
  inputParser : c.inputParser = b.inputParser
  utf8Decoder : c.utf8Decoder = b.utf8Decoder
  readbuf : c.readbuf = b.readbuf
  lineFound : c.lineFound = b.lineFound
  serving : c.serving = b.serving
  queuedVtInput : c.queuedVtInput = b.queuedVtInput
  vtEof : c.vtEof = b.vtEof
  vtIn : c.vtIn = b.vtIn
  dropped : c.dropped = b.dropped
  consumed : c.consumed = b.consumed
  rounds : c.rounds = b.rounds

theorem Emits.same (h : Emits b c) : SameInput b c := by
  cases h with
  | edit => constructor <;> rfl
  | complete => rw [finish_eq]; constructor <;> rfl

/-- Key events do not look at the input that is still to come. -/
theorem Emits.overlay (h : Emits b c) (inputParser : VtParser) (lineFound : Bool) (readbuf queuedVtInput : List UInt8) :
    Emits { b with inputParser, lineFound, readbuf, queuedVtInput }
      { c with inputParser, lineFound, readbuf, queuedVtInput } := by
  cases h with
  | edit inp line inherit sync => exact .edit inp line inherit sync
  | @complete inp line inherit sync m h data =>
    have hb : { b with inputParser, lineFound, readbuf, queuedVtInput }.pending = .consoleInput m := h
    have he := Emits.complete inp line inherit sync hb data
    rw [finish_eq] at he
    rw [finish_eq]
    exact he

theorem emits_inp (inp : List InputRecord) : Emits b { b with inp } :=
  .edit inp b.line b.pendingInheritCursor b.resizeSyncOutstanding

theorem emits_line (line : CookedLine) : Emits b { b with line } :=
  .edit b.inp line b.pendingInheritCursor b.resizeSyncOutstanding

theorem emits_sync (sync : Nat) : Emits b { b with resizeSyncOutstanding := sync } :=
  .edit b.inp b.line b.pendingInheritCursor sync

theorem emits_finish {m : MsgRef} (h : b.pending = .consoleInput m) (inp : List InputRecord) (data : CompletionData) :
    Emits b ({ b with inp }.finish m statusSuccess data) := by
  have e : { b with inp }.finish m statusSuccess data = { b.finish m statusSuccess data with
      inp := inp, line := b.line, pendingInheritCursor := b.pendingInheritCursor
      resizeSyncOutstanding := b.resizeSyncOutstanding } := by
    rw [finish_eq, finish_eq]
    rfl
  rw [e]
  exact .complete inp b.line b.pendingInheritCursor b.resizeSyncOutstanding h data

theorem emits_completePendingConsoleInput : Emits b b.completePendingConsoleInput := by
  unfold completePendingConsoleInput
  split
  · rename_i m hm
    split
    · exact emits_finish hm _ _
    · exact emits_finish hm b.inp _
  · exact .refl b

/-! ## Key events -/

theorem emits_emitRecord (record : InputRecord) : Emits b (b.emitRecord record) :=
  (emits_inp _).trans emits_completePendingConsoleInput

theorem emits_emitKey (vk uc control : Nat) : Emits b (b.emitKey host vk uc control) := emits_emitRecord _

theorem emits_emitKeyPair (vk uc control : Nat) : Emits b (b.emitKeyPair host vk uc control) :=
  (emits_emitKey vk uc control).trans (emits_emitRecord _)

theorem emits_inputPrintable (ch : Char32) : Emits b (b.inputPrintable host ch) :=
  (emits_emitKeyPair _ _ 0).trans (emits_line _)

theorem emits_foldl {f : PipeBridge δ → Char32 → PipeBridge δ} (h : ∀ b ch, Emits b (f b ch)) :
    ∀ (b : PipeBridge δ) (s : List Char32), Emits b (s.foldl f b)
  | b, [] => .refl b
  | b, ch :: s => (h b ch).trans (emits_foldl h (f b ch) s)

theorem emits_emitRawSequenceAsInput (sequence : List Char32) : Emits b (b.emitRawSequenceAsInput host sequence) :=
  emits_foldl (fun _ => emits_inputPrintable) b sequence

theorem emits_processInputKeyEvent (id : VtMessageId) (msg : VtMessage) :
    Emits b (b.processInputKeyEvent host id msg) := by
  unfold processInputKeyEvent
  split
  · exact emits_emitKeyPair _ _ _
  · exact .refl b

theorem emits_processInputEdit (kind : PendingKind) (edit : CookedLine → CookedLine) (id : VtMessageId)
    (msg : VtMessage) : Emits b (b.processInputEdit host kind edit id msg) := by
  unfold processInputEdit
  split
  · exact emits_line _
  · exact emits_processInputKeyEvent id msg

theorem emits_processInputTextChar (kind : PendingKind) (b : PipeBridge δ) (ch : Char32) :
    Emits b (processInputTextChar host kind b ch) := by
  unfold processInputTextChar
  split
  · split
    · exact emits_emitKeyPair _ _ _
    · exact .refl b
  · split
    · exact emits_line _
    · exact emits_inputPrintable ch

theorem emits_processInputText (kind : PendingKind) (msg : VtMessage) : Emits b (b.processInputText host kind msg) := by
  unfold processInputText
  split
  · exact emits_foldl (emits_processInputTextChar kind) b _
  · exact .refl b

theorem emits_processInputCprResponse (msg : VtMessage) : Emits b (b.processInputCprResponse msg).2 := by
  unfold processInputCprResponse
  split
  · split
    · exact .edit b.inp b.line false b.resizeSyncOutstanding
    · split
      · exact .edit b.inp b.line b.pendingInheritCursor _
      · exact .refl b
  · exact .refl b

/-! ## Messages -/

/-- The messages of `process_input` that can end a read. -/
def isLineEndId (id : VtMessageId) : Bool := id = .carriageReturn || id = .lineFeed || id = .win32InputKey

/-- Every other message only writes key events or edits the line. -/
theorem emits_handleMessage {id : VtMessageId} (h : isLineEndId id = false) (m : VtParseResult) (pos : Nat)
    (rest : List UInt8) :
    (b.handleMessage host id m pos rest).1 = false ∧ Emits b (b.handleMessage host id m pos rest).2 := by
  have hedit : ∀ kind edit id, Emits b (b.processInputEdit host kind edit id m.message) :=
    fun kind edit id => emits_processInputEdit kind edit id m.message
  have hraw : Emits b (b.emitRawSequenceAsInput host m.rawSequence) := emits_emitRawSequenceAsInput _
  cases id
  case text => exact ⟨rfl, emits_processInputText _ _⟩
  case carriageReturn => simp [isLineEndId] at h
  case lineFeed => simp [isLineEndId] at h
  case win32InputKey => simp [isLineEndId] at h
  case cprResponse =>
    refine ⟨rfl, ?_⟩
    have hcpr : Emits b (b.processInputCprResponse m.message).2 := emits_processInputCprResponse _
    dsimp only [handleMessage]
    split
    · exact hcpr
    · exact hcpr.trans (emits_emitRawSequenceAsInput _)
  all_goals first
    | exact ⟨rfl, hraw⟩
    | exact ⟨rfl, hedit _ _ _⟩
    | exact ⟨rfl, emits_emitKeyPair _ _ _⟩
    | exact ⟨rfl, emits_processInputKeyEvent _ _⟩
    | exact ⟨rfl, .refl _⟩

end PipeBridge

end Corehost
