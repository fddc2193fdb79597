import Corehost.Input.Serve

/-!
# What routing a message does to the input

`Routes` is what `on_message` can do: it fills in the completion of the message,
starts a read, lets the message wait for events, or forgets the pending read of
a process that leaves. `onMessage_routes` says that this is all.
-/

namespace Corehost

namespace PipeBridge

open Account

variable {δ : Type} {host : Host δ} {b b' c d : PipeBridge δ} {m : MsgRef}

/-- The raw read or ReadConsole in `m` is started: `b'` is the bridge before it
looks for input. -/
structure Serves (b : PipeBridge δ) (m : MsgRef) (b' : PipeBridge δ) : Prop where
  none : b.pending = .none
  account : ∃ p, b'.account = servingAccount b.account p m ∧
    (p = .rawRead m ∧ (∃ size, (b.msgs m).request = .rawRead size) ∨
      p = .consoleRead m ∧ ∃ r, (b.msgs m).request = .readConsole r)
  readbuf : b'.readbuf = []
  consumed : b'.consumed = b.consumed
  rounds : b'.rounds = b.rounds
  queuedVtInput : b'.queuedVtInput = b.queuedVtInput
  vtIn : b'.vtIn = b.vtIn
  vtEof : b'.vtEof = b.vtEof

inductive Routes (host : Host δ) (b : PipeBridge δ) (m : MsgRef) : Bool × PipeBridge δ → Prop
  | prepared {c : PipeBridge δ} (h : Call host b c) (status : Nat) (data : CompletionData)
    (hraw : ∀ size, (b.msgs m).request = .rawRead size → data = .empty) :
    Routes host b m (true, c.prepare m status data)
  | written {c : PipeBridge δ} (h : Call host (b.prepare m) c) (hraw : ∀ size, (b.msgs m).request ≠ .rawRead size) :
    Routes host b m (true, c)
  | served {b' c : PipeBridge δ} (hb : Serves b m b') (h : Call host b' c) (done : Bool) :
    Routes host b m (done, { c with serving := none })
  | waits {c : PipeBridge δ} (h : Call host b c) (hp : c.pending = .none)
    (hraw : ∀ size, (b.msgs m).request ≠ .rawRead size) :
    Routes host b m (false, { c with pending := .consoleInput m })
  | dropped {m' : MsgRef} (hp : b.pending.request? = some m') (hreq : (b.msgs m).request = .disconnect)
    (hprocess : (b.msgs m').process = (b.msgs m).process) :
    Routes host b m (true, (b.dropPendingReadOf (b.msgs m).process).prepare m)

/-- A call while a request is being served, seen from outside. -/
theorem Call.unserved (h : Call host { b with serving := some m } c) (hs : b.serving = none)
    (hacc : c.account = account { b with serving := some m }) : Call host b { c with serving := none } := by
  refine ⟨?_, h.takenBy, h.rounds, h.eof, h.controlZ, fun hz hd => ?_, h.rawOk, h.raw⟩
  swap
  · obtain ⟨hstream, hpaired⟩ := h.delivers hz hd
    refine ⟨hstream, fun hp => ?_⟩
    have hp' := hpaired ⟨hp.chain, hp.last⟩
    exact ⟨hp'.chain, hp'.last⟩
  have ha : account { c with serving := none } = b.account := by
    rw [account, show c.pending = b.pending from congrArg Account.pending hacc,
      show c.msgs = b.msgs from congrArg Account.msgs hacc,
      show c.completed = b.completed from congrArg Account.completed hacc,
      show c.dropped = b.dropped from congrArg Account.dropped hacc, account, hs]
  rw [ha]
  exact .same

theorem handleRawRead_routes {size : Nat} (hp : b.pending = .none) (hs : b.serving = none)
    (hreq : (b.msgs m).request = .rawRead size) : Routes host b m (b.handleRawRead host m) := by
  unfold handleRawRead whileServing
  dsimp only
  by_cases heof : b.vtEof = true
  · rw [if_pos heof]
    have h : Routes host b m _ := .prepared (.refl b) statusSuccess .empty fun _ _ => rfl
    rw [prepare, ← hs] at *
    exact h
  · rw [if_neg heof]
    generalize hb1 : ({ b with
      serving := some m, pending := .rawRead m, processControlZ := hasFlag b.inputMode ENABLE_PROCESSED_INPUT
      readbuf := [], lineFound := false } : PipeBridge δ) = b1
    have hserves : Serves b m b1 := by
      rw [← hb1]
      exact ⟨hp, ⟨_, rfl, .inl ⟨rfl, size, hreq⟩⟩, rfl, rfl, rfl, rfl, rfl, rfl⟩
    exact .served hserves call_accumulateFromPipe _

theorem handleConsoleRead_routes {r : ReadConsoleMsg} {procZ : Bool} {initData : List UInt8} (hp : b.pending = .none)
    (hs : b.serving = none) (hreq : (b.msgs m).request = .readConsole r) :
    Routes host b m (b.handleConsoleRead host m procZ initData) := by
  unfold handleConsoleRead whileServing
  dsimp only
  by_cases heof : b.vtEof = true
  · rw [if_pos heof]
    have h : Routes host b m _ := .prepared (.refl b) statusSuccess .empty fun _ _ => rfl
    rw [prepare, ← hs] at *
    exact h
  · rw [if_neg heof]
    generalize hb1 : ({ b with
      serving := some m, pending := .consoleRead m, processControlZ := procZ, readbuf := [], lineFound := false
      line := { buf := [], cursor := 0, history := b.line.history.resetBrowse } } : PipeBridge δ) = b1
    have hserves : Serves b m b1 := by
      rw [← hb1]
      exact ⟨hp, ⟨_, rfl, .inr ⟨rfl, r, hreq⟩⟩, rfl, rfl, rfl, rfl, rfl, rfl⟩
    have hp1 : b1.pending = .consoleRead m := by rw [← hb1]
    generalize hb2 : (if initData.take bodySize ≠ [] then b1.processInitialData host (initData.take bodySize) else b1) = b2
    have hcall2 : Call host b1 b2 := by
      rw [← hb2]
      split
      · exact call_processInitialData hp1 _
      · exact .refl b1
    have hcall3 : Call host b2 b2.consumeInputBufferForConsoleRead.2 := call_consumeRecords b2.inp
    generalize b2.consumeInputBufferForConsoleRead = r at hcall3 ⊢
    obtain ⟨done, b3⟩ := r
    cases done with
    | true => exact .served hserves (hcall2.trans hcall3) true
    | false => exact .served hserves ((hcall2.trans hcall3).trans call_accumulateFromPipe) _

theorem handleConsoleInput_routes {r : GetConsoleInputMsg} (hs : b.serving = none)
    (hreq : (b.msgs m).request = .getConsoleInput r)
    (hwait : b.hasPending = true → hasFlag r.flags CONSOLE_READ_NOWAIT = true) :
    Routes host b m (b.handleConsoleInput host m r) := by
  unfold handleConsoleInput whileServing
  dsimp only
  have hacc : (prepareConsoleInputEvents host { b with serving := some m }).account =
      account { b with serving := some m } := prepareConsoleInputEvents_account
  have hcall : Call host { b with serving := some m } (prepareConsoleInputEvents host { b with serving := some m }) :=
    call_prepareConsoleInputEvents
  have hcall' := hcall.unserved hs hacc
  generalize prepareConsoleInputEvents host { b with serving := some m } = c at hacc hcall' ⊢
  have hraw : ∀ size, (b.msgs m).request ≠ .rawRead size := fun size h => by
    rw [hreq] at h
    cases h
  have hinp : ∀ inp, Call host b { c with inp, serving := none } := fun inp => hcall'.trans (emits_inp inp).call
  split
  · exact .prepared hcall' _ _ fun _ _ => rfl
  · split
    · exact .prepared hcall' _ _ fun size h => absurd h (hraw size)
    · split
      · rename_i h
        refine .waits hcall' ?_ hraw
        rw [show c.pending = b.pending from congrArg Account.pending hacc]
        by_contra hne
        have hpend : b.hasPending = true := by simpa [hasPending] using hne
        rw [hwait hpend] at h
        cases h.2
      · exact .prepared (hinp _) _ _ fun size h => absurd h (hraw size)

theorem apiReadConsole_routes {r : ReadConsoleMsg} (hp : b.pending = .none) (hs : b.serving = none)
    (hreq : (b.msgs m).request = .readConsole r) : Routes host b m (b.apiReadConsole host m r) := by
  rcases apiReadConsole_cases host b m r with ⟨status, he⟩ | ⟨procZ, initData, he⟩
  · rw [he]
    exact .prepared (.refl b) status .empty fun _ _ => rfl
  · rw [he]
    exact handleConsoleRead_routes hp hs hreq

theorem onMessage_routes (hs : b.serving = none) (hgate : b.hasPending = true → mayWaitForInput (b.msgs m) = false) :
    Routes host b m (b.onMessage host m) := by
  have hprep : ∀ {c : PipeBridge δ} (_ : Call host b c) (status : Nat), Routes host b m (true, c.prepare m status) :=
    fun h status => .prepared h status .empty fun _ _ => rfl
  have hnone : mayWaitForInput (b.msgs m) = true → b.pending = .none := by
    intro hw
    by_contra hp
    have hpend : b.hasPending = true := by simpa [hasPending] using hp
    rw [hgate hpend] at hw
    cases hw
  cases hreq : (b.msgs m).request with
  | rawRead size =>
    simp only [onMessage, hreq]
    exact handleRawRead_routes (hnone (by rw [mayWaitForInput, hreq])) hs hreq
  | readConsole r =>
    simp only [onMessage, hreq]
    split
    · exact hprep (.refl b) _
    · exact apiReadConsole_routes (hnone (by rw [mayWaitForInput, hreq])) hs hreq
  | getConsoleInput r =>
    have hwait : ¬r.inputSize < messageHeaderSize + getConsoleInputSize → b.hasPending = true →
        hasFlag r.flags CONSOLE_READ_NOWAIT = true := by
      intro hsize hpend
      have h := hgate hpend
      simpa [mayWaitForInput, hreq, hsize] using h
    simp only [onMessage, hreq]
    split
    · exact hprep (.refl b) _
    · rename_i hsize
      exact handleConsoleInput_routes hs hreq (hwait hsize)
  | getNumberOfInputEvents =>
    simp only [onMessage, hreq]
    exact hprep call_prepareConsoleInputEvents _
  | writeConsoleInput append records =>
    simp only [onMessage, hreq]
    generalize (if append = true then inputWrite b.inp records else inputPrepend b.inp records) = inp
    split
    · have hinp : Call host (b.prepare m) (prepare { b with inp } m) := (emits_inp (b := b.prepare m) inp).call
      refine .written (hinp.trans call_onConsoleInputWritten) fun size h => ?_
      rw [hreq] at h
      cases h
    · exact hprep (emits_inp inp).call _
  | flushInput =>
    simp only [onMessage, hreq]
    exact hprep (emits_inp []).call _
  | setInputMode mode =>
    simp only [onMessage, hreq]
    exact hprep (c := { b with inputMode := mode }) (call_quiet rfl rfl rfl id rfl rfl rfl rfl) _
  | output responses cursorQueries =>
    simp only [onMessage, hreq]
    have hemits : Emits b (b.emitRawSequenceAsInput host responses) := emits_emitRawSequenceAsInput responses
    exact hprep (hemits.trans (emits_sync _)).call _
  | disconnect =>
    simp only [onMessage, hreq]
    cases hm : b.pending.request? with
    | none =>
      have he : b.dropPendingReadOf (b.msgs m).process = b := by simp only [dropPendingReadOf, hm]
      rw [he]
      exact hprep (.refl b) _
    | some m' =>
      by_cases hprocess : (b.msgs m').process = (b.msgs m).process
      · exact .dropped hm hreq hprocess
      · have he : b.dropPendingReadOf (b.msgs m).process = b := by simp only [dropPendingReadOf, hm, if_pos hprocess]
        rw [he]
        exact hprep (.refl b) _
  | empty =>
    simp only [onMessage, hreq]
    exact hprep (.refl b) _
  | connect =>
    simp only [onMessage, hreq]
    exact hprep (.refl b) _
  | other =>
    simp only [onMessage, hreq]
    exact hprep (.refl b) _

theorem dropPendingReadOf_kept (b : PipeBridge δ) (process : Nat) : (b.dropPendingReadOf process).rounds = b.rounds ∧
    (b.dropPendingReadOf process).consumed = b.consumed ∧
    (b.dropPendingReadOf process).queuedVtInput = b.queuedVtInput ∧ (b.dropPendingReadOf process).vtIn = b.vtIn := by
  unfold dropPendingReadOf
  split
  · exact ⟨rfl, rfl, rfl, rfl⟩
  · split
    · exact ⟨rfl, rfl, rfl, rfl⟩
    · exact ⟨rfl, rfl, rfl, rfl⟩

/-! ## Moves -/

/-- What every part of the loop keeps of the input. -/
structure Moves (host : Host δ) (b c : PipeBridge δ) : Prop where
  serving : b.serving = none → c.serving = none
  rounds : b.rounds <+: c.rounds
  controlZ : b.ControlZ → c.ControlZ
  delivers : b.ControlZ → (∀ r ∈ c.rounds, r.KeepsPair host) → c.stream [] = b.stream [] ∧ (Paired b [] → Paired c [])

theorem Moves.trans (h : Moves host b c) (h' : Moves host c d) : Moves host b d := by
  refine ⟨h'.serving ∘ h.serving, h.rounds.trans h'.rounds, h'.controlZ ∘ h.controlZ, fun hz hd => ?_⟩
  have h1 := h.delivers hz fun r hr => hd r (h'.rounds.subset hr)
  have h2 := h'.delivers (h.controlZ hz) hd
  exact ⟨h2.1.trans h1.1, h2.2 ∘ h1.2⟩

/-- No input is looked at. -/
theorem moves_quiet (hs : b.serving = none → c.serving = none) (hrounds : c.rounds = b.rounds)
    (hz : b.ControlZ → c.ControlZ) (hcons : c.consumed = b.consumed) (hq : c.queuedVtInput = b.queuedVtInput)
    (hv : c.vtIn.bytes = b.vtIn.bytes) : Moves host b c := by
  have hahead : c.ahead [] = b.ahead [] := by rw [ahead, ahead, hq, hv]
  refine ⟨hs, by rw [hrounds], hz, fun _ _ => ⟨by rw [stream, stream, hahead, hcons], fun hp => ⟨?_, ?_⟩⟩⟩
  · rw [hcons]
    exact hp.chain
  · rw [hcons, hahead]
    exact hp.last

theorem Moves.refl (b : PipeBridge δ) : Moves host b b := moves_quiet id rfl id rfl rfl rfl

theorem Call.moves (h : Call host b c) : Moves host b c := by
  refine ⟨?_, h.rounds, h.controlZ, h.delivers⟩
  intro hs
  exact h.settles.serving_eq.trans hs

theorem moves_prepare (status : Nat) (data : CompletionData) : Moves host b (b.prepare m status data) :=
  moves_quiet id rfl id rfl rfl rfl

theorem moves_unserved : Moves host b { b with serving := none } := moves_quiet (fun _ => rfl) rfl id rfl rfl rfl

theorem Routes.moves {r : Bool × PipeBridge δ} (h : Routes host b m r) : Moves host b r.2 := by
  cases h with
  | prepared h => exact h.moves.trans (moves_prepare _ _)
  | written h => exact (moves_prepare _ _).trans h.moves
  | @served b' c hb h =>
    obtain ⟨p, hacc, hp⟩ := hb.account
    have hread : b'.reading = some m := by
      rw [reading, show b'.pending = p from congrArg Account.pending hacc]
      rcases hp with ⟨rfl, -⟩ | ⟨rfl, -⟩
      · rfl
      · rfl
    have hb' : Moves host b { b' with serving := none } :=
      moves_quiet (fun _ => rfl) hb.rounds
        (fun _ hn => by rw [show reading { b' with serving := none } = b'.reading from rfl, hread] at hn; cases hn)
        hb.consumed hb.queuedVtInput (by rw [hb.vtIn])
    have hm : Moves host b' c := h.moves
    refine ⟨fun _ => rfl, hb'.rounds.trans hm.rounds, fun hz => (hm.trans moves_unserved).controlZ (hb'.controlZ hz), ?_⟩
    intro hz hd
    have h1 := hb'.delivers hz fun r hr => hd r (hm.rounds.subset hr)
    have h2 := (hm.trans moves_unserved).delivers (hb'.controlZ hz) hd
    exact ⟨h2.1.trans h1.1, fun hp => h2.2 ⟨(h1.2 hp).chain, (h1.2 hp).last⟩⟩
  | @waits c h hp =>
    refine h.moves.trans (moves_quiet id rfl (fun hz _ => ?_) rfl rfl rfl)
    exact hz (by rw [reading, hp])
  | @dropped m' hp hreq hprocess =>
    refine Moves.trans ?_ (moves_prepare _ _)
    obtain ⟨h1, h2, h3, h4⟩ := b.dropPendingReadOf_kept (b.msgs m).process
    refine moves_quiet ?_ h1 ?_ h2 h3 (by rw [h4])
    · intro hs
      simp only [dropPendingReadOf, hp, hprocess, ne_eq, not_true_eq_false, if_false, hs]
    · intro hz hread
      simp only [dropPendingReadOf, hp, hprocess, ne_eq, not_true_eq_false, if_false]

end PipeBridge

end Corehost
