import Corehost.Input.Completions
import Corehost.Input.Loop

/-!
# The steps of the I/O loop

A step of the loop makes at most one call into the bridge: it routes a message,
or lets the bridge look at its input. Otherwise it only moves completions and
messages between the buffers. `StepBridge` says this, and `step_bridge` is the
only place where the branches of the loop are taken apart for it.
-/

namespace Corehost

namespace IoLoop

open PipeBridge

variable {δ : Type} {host : Host δ} {s : IoLoop δ} {m : MsgRef} {i : LoopInput} {b : PipeBridge δ}

/-- What the pipe holds in the step with input `i`. -/
def seeing (s : IoLoop δ) (i : LoopInput) : PipeBridge δ :=
  { s.bridge with vtIn := { s.bridge.vtIn with seen := i.seen } }

/-- The message that the next step gives to `on_message`. -/
def dispatched (s : IoLoop δ) : Option MsgRef :=
  match s.pc with
  | .top => if s.bridge.hasPending then none else s.deferredMsg
  | .route =>
    if (s.bridge.msgs s.cur).request = .empty ∨ (s.bridge.msgs s.cur).request = .connect ∨
      s.bridge.hasPending ∧ mayWaitForInput (s.bridge.msgs s.cur) then none
    else some s.cur
  | .serve => if s.bridge.hasPending ∨ s.bridge.shouldExit then none else some (s.deferredMsg.getD s.cur)
  | _ => none

theorem step_eq (s : IoLoop δ) (i : LoopInput) : s.step host i =
    match s.pc with
    | .top => top host { s with bridge := s.seeing i }
    | .idle => idle host { s with bridge := s.seeing i } i
    | .read => read { s with bridge := s.seeing i } i
    | .noMessage => (onIdle host { s with bridge := s.seeing i } i).exitOr .top
    | .route => route host { s with bridge := s.seeing i } i
    | .flushed =>
      { (onIdle host { s with bridge := s.seeing i } i).exitOr .top with
        cur := ((onIdle host { s with bridge := s.seeing i } i).exitOr .top).nextFree }
    | .serve => serve host { s with bridge := s.seeing i } i
    | .exit => { s with bridge := s.seeing i }
    | .exitServing => { s with bridge := s.seeing i } := rfl

theorem step_top (hpc : s.pc = .top) : s.step host i = top host { s with bridge := s.seeing i } := by
  rw [step_eq]
  split <;> first | rfl | (rename_i h; rw [hpc] at h; cases h)

theorem step_read (hpc : s.pc = .read) : s.step host i = read { s with bridge := s.seeing i } i := by
  rw [step_eq]
  split <;> first | rfl | (rename_i h; rw [hpc] at h; cases h)

theorem step_route (hpc : s.pc = .route) : s.step host i = route host { s with bridge := s.seeing i } i := by
  rw [step_eq]
  split <;> first | rfl | (rename_i h; rw [hpc] at h; cases h)

theorem step_serve (hpc : s.pc = .serve) : s.step host i = serve host { s with bridge := s.seeing i } i := by
  rw [step_eq]
  split <;> first | rfl | (rename_i h; rw [hpc] at h; cases h)

theorem not_hasPending (h : ¬b.hasPending = true) : b.pending = .none := by
  simpa [hasPending] using h

theorem dispatchDeferred_eq (host : Host δ) (s : IoLoop δ) (m : MsgRef) : s.dispatchDeferred host m =
    if (s.bridge.onMessage host m).1 then
      completeIo { s with bridge := (s.bridge.onMessage host m).2, deferredMsg := none } m
    else { s with bridge := (s.bridge.onMessage host m).2, deferredMsg := none, pendingMsg := some m } := by
  unfold dispatchDeferred
  generalize s.bridge.onMessage host m = r
  obtain ⟨done, b⟩ := r
  rfl

/-- The step that dispatches the message in `m`: it is the deferred one, or the one in `cur`. -/
theorem step_cases (host : Host δ) (hm : s.dispatched = some m) (i : LoopInput) :
    (s.deferredMsg = some m ∧ (s.pc = .top ∧ s.step host i =
        (dispatchDeferred host { s with bridge := s.seeing i, pendingMsg := none } m).exitOr .idle ∨
      s.pc = .serve ∧ s.step host i = dispatchDeferred host { s with bridge := s.seeing i, pendingMsg := none } m)) ∨
    m = s.cur ∧ (s.pc = .route ∨ s.pc = .serve ∧ s.deferredMsg = none) ∧
      ∃ pendingMsg, s.step host i = dispatch host { s with bridge := s.seeing i, pendingMsg } i := by
  unfold dispatched at hm
  split at hm
  · rename_i hpc
    split at hm
    · cases hm
    · rename_i hp
      refine .inl ⟨hm, .inl ⟨hpc, ?_⟩⟩
      have hf : forgetPending { s with bridge := s.seeing i } = { s with bridge := s.seeing i, pendingMsg := none } :=
        if_neg hp
      rw [step_top hpc, top, hf]
      simp only [hm]
      exact if_neg hp
  · rename_i hpc
    split at hm
    · cases hm
    · rename_i hno
      simp only [not_or, not_and] at hno
      obtain ⟨hempty, hconnect, hgate⟩ := hno
      refine .inr ⟨(Option.some.inj hm).symm, .inl hpc, s.pendingMsg, ?_⟩
      rw [step_route hpc, route]
      split
      · rename_i he
        exact absurd he hempty
      · rename_i he
        exact absurd he hconnect
      · exact if_neg fun h => hgate h.1 h.2
  · rename_i hpc
    split at hm
    · cases hm
    · rename_i hno
      rw [not_or] at hno
      cases hd : s.deferredMsg with
      | some m' =>
        rw [hd] at hm
        cases hm
        refine .inl ⟨rfl, .inr ⟨hpc, ?_⟩⟩
        rw [step_serve hpc, serve]
        refine ((if_neg hno.1).trans (if_neg hno.2)).trans ?_
        simp only [hd, Option.getD_some]
      | none =>
        rw [hd] at hm
        refine .inr ⟨(Option.some.inj hm).symm, .inr ⟨hpc, rfl⟩, none, ?_⟩
        rw [step_serve hpc, serve]
        refine ((if_neg hno.1).trans (if_neg hno.2)).trans ?_
        simp only [hd]
  · cases hm

/-! ## Between the buffers -/

/-- The loop has moved completions and messages, and the bridge is otherwise as it
was. Only READ_IO replaces a message, and the only completion that the loop
prepares itself is that of a CONNECT. -/
structure Handles (s : IoLoop δ) (b c : PipeBridge δ) : Prop where
  same : ∃ msgs completed, c = { b with msgs, completed }
  completed : b.completed <+: c.completed
  messages : ∀ m, (s.pc = .read → m ≠ s.cur) → Account.SameMessage b.account c.account m
  old : ∀ completion, HasCompletion c completion → HasCompletion b completion ∨
    s.pc = .route ∧ (s.bridge.msgs s.cur).request = .connect ∧
      completion.identifier = (s.bridge.msgs s.cur).identifier

variable {c d : PipeBridge δ}

theorem Handles.refl (s : IoLoop δ) (b : PipeBridge δ) : Handles s b b :=
  ⟨⟨b.msgs, b.completed, rfl⟩, List.prefix_rfl, fun _ _ => ⟨rfl, rfl, rfl⟩, fun _ h => .inl h⟩

theorem Handles.trans (h : Handles s b c) (h' : Handles s c d) : Handles s b d := by
  obtain ⟨msgs, completed, rfl⟩ := h.same
  obtain ⟨msgs', completed', rfl⟩ := h'.same
  refine ⟨⟨msgs', completed', rfl⟩, h.completed.trans h'.completed, fun m hm => ?_, fun completion hex => ?_⟩
  · obtain ⟨h1, h2, h3⟩ := h.messages m hm
    obtain ⟨h1', h2', h3'⟩ := h'.messages m hm
    exact ⟨h1'.trans h1, h2'.trans h2, h3'.trans h3⟩
  · rcases h'.old completion hex with hex | he
    · exact h.old completion hex
    · exact .inr he

theorem handles_completeIo {s : IoLoop δ} (s' : IoLoop δ) (m : MsgRef) : Handles s s'.bridge (s'.completeIo m).bridge := by
  refine ⟨⟨s'.bridge.msgs, _, rfl⟩, List.prefix_append _ _, fun _ _ => ⟨rfl, rfl, rfl⟩, ?_⟩
  rintro completion (hmem | hex)
  · rcases List.mem_append.mp hmem with hmem | hmem
    · exact .inl (.inl hmem)
    · exact .inl (.inr ⟨m, Option.mem_toList.mp hmem⟩)
  · exact .inl (.inr hex)

/-- READ_IO clears a buffer, or fills it. -/
theorem handles_replace (hpc : s.pc = .read) {msg : IoMsg} (hmsg : msg.complete = (b.msgs s.cur).complete) :
    Handles s b (b.setMsg s.cur msg) := by
  refine ⟨⟨_, b.completed, rfl⟩, List.prefix_rfl, fun m hm => Account.sameMessage_setMsg b.account (hm hpc) msg, ?_⟩
  intro completion hex
  rcases exists_setMsg hex with h | h
  · exact .inl h
  · exact .inl (.inr ⟨s.cur, hmsg ▸ h⟩)

theorem handles_connect (hpc : s.pc = .route) (hreq : (s.bridge.msgs s.cur).request = .connect) :
    Handles s (s.seeing i) ((s.seeing i).prepare s.cur) := by
  refine ⟨⟨_, s.bridge.completed, rfl⟩, List.prefix_rfl, fun m _ => Account.sameMessage_update s.bridge.account s.cur m _, ?_⟩
  intro completion hex
  rcases exists_setMsg hex with h | h
  · exact .inl h
  · cases h
    exact .inr ⟨hpc, hreq, rfl⟩

theorem Handles.moves (h : Handles s b c) : Moves host b c := by
  obtain ⟨msgs, completed, rfl⟩ := h.same
  exact moves_quiet id rfl id rfl rfl rfl

/-! ## One step -/

inductive StepBridge (host : Host δ) (s : IoLoop δ) (i : LoopInput) : PipeBridge δ → Prop
  | call {b c : PipeBridge δ} (hn : s.dispatched = none) (h : Call host (s.seeing i) b) (hc : Handles s b c) :
    StepBridge host s i c
  | route {m : MsgRef} {c : PipeBridge δ} (hm : s.dispatched = some m)
    (h : Routes host (s.seeing i) m ((s.seeing i).onMessage host m))
    (hc : Handles s ((s.seeing i).onMessage host m).2 c) : StepBridge host s i c

theorem forgetPending_bridge (s : IoLoop δ) : s.forgetPending.bridge = s.bridge := by
  unfold forgetPending
  split <;> rfl

theorem handles_dispatchDeferred {s : IoLoop δ} (s' : IoLoop δ) (m : MsgRef) :
    Handles s (s'.bridge.onMessage host m).2 (s'.dispatchDeferred host m).bridge := by
  rw [dispatchDeferred_eq]
  split
  · exact handles_completeIo { s' with bridge := (s'.bridge.onMessage host m).2, deferredMsg := none } m
  · exact .refl _ _

theorem handles_dispatch {s : IoLoop δ} (s' : IoLoop δ) (i : LoopInput) :
    Handles s (s'.bridge.onMessage host s'.cur).2 (s'.dispatch host i).bridge := by
  unfold dispatch
  generalize s'.bridge.onMessage host s'.cur = r
  obtain ⟨done, b⟩ := r
  have hdone : Handles s b (completeIo { s' with bridge := b } s'.cur).bridge :=
    handles_completeIo { s' with bridge := b } s'.cur
  dsimp only
  split
  · split
    · exact hdone
    · split
      · exact hdone
      · exact .refl _ _
  · split <;> exact .refl _ _

theorem handles_submit (hpc : s.pc = .read) :
    Handles s (s.seeing i) (submit { s with bridge := s.seeing i }).bridge := by
  have hclear : ∀ b : PipeBridge δ, Handles s b (b.setMsg s.cur { complete := (b.msgs s.cur).complete }) :=
    fun b => handles_replace hpc rfl
  unfold submit
  split
  · exact (handles_completeIo { s with bridge := s.seeing i } _).trans (hclear _)
  · exact hclear _

theorem handles_receive (hpc : s.pc = .read) (process : Nat) (request : Request) :
    Handles s (s.seeing i) ((submit { s with bridge := s.seeing i }).receive process request).bridge := by
  have hcur : (submit { s with bridge := s.seeing i }).cur = s.cur := by
    unfold submit
    split <;> rfl
  refine (handles_submit hpc).trans ?_
  unfold receive
  rw [hcur]
  exact handles_replace hpc rfl

theorem stepBridge_dispatch (hs : s.bridge.serving = none) (hm : s.dispatched = some s.cur)
    (hgate : s.bridge.hasPending = true → mayWaitForInput (s.bridge.msgs s.cur) = false) (pendingMsg : Option MsgRef) :
    StepBridge host s i (dispatch host { s with bridge := s.seeing i, pendingMsg } i).bridge :=
  .route hm (onMessage_routes hs hgate) (handles_dispatch { s with bridge := s.seeing i, pendingMsg } i)

theorem stepBridge_dispatchDeferred (hs : s.bridge.serving = none) (hm : s.dispatched = some m)
    (hp : ¬s.bridge.hasPending = true) (pendingMsg : Option MsgRef) :
    StepBridge host s i (dispatchDeferred host { s with bridge := s.seeing i, pendingMsg } m).bridge :=
  .route hm (onMessage_routes hs fun h => absurd h hp)
    (handles_dispatchDeferred { s with bridge := s.seeing i, pendingMsg } m)

theorem stepBridge_quiet (hn : s.dispatched = none) {c : PipeBridge δ} (hc : Handles s (s.seeing i) c) :
    StepBridge host s i c :=
  .call hn (.refl _) hc

theorem stepBridge_route (hs : s.bridge.serving = none) (hpc : s.pc = .route) :
    StepBridge host s i (route host { s with bridge := s.seeing i } i).bridge := by
  have hd : s.dispatched = if (s.bridge.msgs s.cur).request = .empty ∨ (s.bridge.msgs s.cur).request = .connect ∨
      s.bridge.hasPending ∧ mayWaitForInput (s.bridge.msgs s.cur) then none else some s.cur := by
    rw [dispatched, hpc]
  unfold route
  split
  · rename_i hreq
    exact .call (hd.trans (if_pos (.inl hreq))) (call_onIdle i.signal) (.refl _ _)
  · rename_i hreq
    refine stepBridge_quiet (hd.trans (if_pos (.inr (.inl hreq)))) ?_
    have hprep : Handles s (s.seeing i) ((s.seeing i).prepare s.cur) := handles_connect hpc hreq
    unfold connect
    dsimp only
    split
    · exact hprep.trans (handles_completeIo { s with bridge := (s.seeing i).prepare s.cur } s.cur)
    · exact hprep
  · rename_i hempty hconnect
    by_cases hgate : (s.seeing i).hasPending = true ∧ mayWaitForInput ((s.seeing i).msgs s.cur) = true
    · have hn : s.dispatched = none := hd.trans (if_pos (.inr (.inr hgate)))
      rw [if_pos hgate]
      split <;> exact stepBridge_quiet hn (.refl _ _)
    · rw [if_neg hgate]
      refine stepBridge_dispatch hs (hd.trans (if_neg ?_)) (fun hp => ?_) _
      · rintro (h | h | h)
        · exact hempty h
        · exact hconnect h
        · exact hgate h
      · rw [← Bool.not_eq_true]
        exact fun hw => hgate ⟨hp, hw⟩

theorem stepBridge_serve (hs : s.bridge.serving = none) (hpc : s.pc = .serve) :
    StepBridge host s i (serve host { s with bridge := s.seeing i } i).bridge := by
  have hd : s.dispatched = if s.bridge.hasPending ∨ s.bridge.shouldExit then none else some (s.deferredMsg.getD s.cur) := by
    rw [dispatched, hpc]
  unfold serve
  by_cases hp : (s.seeing i).hasPending = true
  · rw [if_pos hp]
    exact .call (hd.trans (if_pos (.inl hp))) (call_waitForPendingVtInput i.signal) (.refl _ _)
  · rw [if_neg hp]
    by_cases hexit : (s.seeing i).shouldExit = true
    · exact stepBridge_quiet (hd.trans (if_pos (.inr hexit))) (by rw [if_pos hexit]; exact .refl _ _)
    · have hm : s.dispatched = some (s.deferredMsg.getD s.cur) := hd.trans (if_neg fun h => h.elim hp hexit)
      dsimp only
      rw [if_neg hexit]
      split
      · rename_i m hdef
        rw [show s.deferredMsg = some m from hdef] at hm
        exact stepBridge_dispatchDeferred hs hm hp _
      · rename_i hdef
        rw [show s.deferredMsg = none from hdef] at hm
        exact stepBridge_dispatch hs hm (fun h => absurd h hp) _

theorem stepBridge_top (hs : s.bridge.serving = none) (hpc : s.pc = .top) :
    StepBridge host s i (top host { s with bridge := s.seeing i }).bridge := by
  have hd : s.dispatched = if s.bridge.hasPending then none else s.deferredMsg := by
    rw [dispatched, hpc]
  unfold top
  by_cases hp : (s.seeing i).hasPending = true
  · have hn : s.dispatched = none := hd.trans (if_pos hp)
    have hf : forgetPending { s with bridge := s.seeing i } = { s with bridge := s.seeing i } := if_pos hp
    rw [hf]
    dsimp only
    split
    · rw [if_pos hp]
      exact stepBridge_quiet hn (.refl _ _)
    · exact stepBridge_quiet hn (.refl _ _)
  · have hf : forgetPending { s with bridge := s.seeing i } = { s with bridge := s.seeing i, pendingMsg := none } := if_neg hp
    have hm : s.dispatched = s.deferredMsg := hd.trans (if_neg hp)
    rw [hf]
    dsimp only
    split
    · rename_i m hdef
      rw [if_neg hp]
      exact stepBridge_dispatchDeferred hs (hm.trans hdef) hp _
    · rename_i hdef
      exact stepBridge_quiet (hm.trans hdef) (.refl _ _)

theorem step_bridge (host : Host δ) (s : IoLoop δ) (i : LoopInput) (hs : s.bridge.serving = none) :
    StepBridge host s i (s.step host i).bridge := by
  have hn : s.pc ≠ .top → s.pc ≠ .route → s.pc ≠ .serve → s.dispatched = none := by
    intro h1 h2 h3
    unfold dispatched
    split
    · exact absurd ‹_› h1
    · exact absurd ‹_› h2
    · exact absurd ‹_› h3
    · rfl
  have hidle : Call host (s.seeing i) ((s.seeing i).onIdle host i.signal) := call_onIdle i.signal
  rw [step_eq]
  split
  · rename_i hpc
    exact stepBridge_top hs hpc
  · rename_i hpc
    have hn := hn (by rw [hpc]; nofun) (by rw [hpc]; nofun) (by rw [hpc]; nofun)
    unfold idle
    split
    · rw [forgetPending_bridge]
      exact .call hn hidle (.refl _ _)
    · split
      · exact .call hn hidle (.refl _ _)
      · exact stepBridge_quiet hn (.refl _ _)
  · rename_i hpc
    have hn := hn (by rw [hpc]; nofun) (by rw [hpc]; nofun) (by rw [hpc]; nofun)
    unfold read
    split
    · exact stepBridge_quiet hn (.refl _ _)
    · exact stepBridge_quiet hn (handles_submit hpc)
    · exact stepBridge_quiet hn (handles_receive hpc _ _)
  · rename_i hpc
    exact .call (hn (by rw [hpc]; nofun) (by rw [hpc]; nofun) (by rw [hpc]; nofun)) hidle (.refl _ _)
  · rename_i hpc
    exact stepBridge_route hs hpc
  · rename_i hpc
    exact .call (hn (by rw [hpc]; nofun) (by rw [hpc]; nofun) (by rw [hpc]; nofun)) hidle (.refl _ _)
  · rename_i hpc
    exact stepBridge_serve hs hpc
  · rename_i hpc
    exact stepBridge_quiet (hn (by rw [hpc]; nofun) (by rw [hpc]; nofun) (by rw [hpc]; nofun)) (.refl _ _)
  · rename_i hpc
    exact stepBridge_quiet (hn (by rw [hpc]; nofun) (by rw [hpc]; nofun) (by rw [hpc]; nofun)) (.refl _ _)

/-! ## Runs -/

theorem moves_seeing (s : IoLoop δ) (i : LoopInput) : Moves host s.bridge (s.seeing i) := moves_quiet id rfl id rfl rfl rfl

theorem StepBridge.moves (h : StepBridge host s i b) : Moves host s.bridge b := by
  cases h with
  | call hn h hc => exact ((moves_seeing s i).trans h.moves).trans hc.moves
  | route hm h hc => exact ((moves_seeing s i).trans h.moves).trans hc.moves

theorem run_moves (host : Host δ) (hs : s.bridge.serving = none) (inputs : List LoopInput) :
    Moves host s.bridge (s.run host inputs).bridge := by
  induction inputs generalizing s with
  | nil => exact .refl _
  | cons i inputs ih =>
    have h := (step_bridge host s i hs).moves
    exact h.trans (ih (h.serving hs))

theorem run_append (s : IoLoop δ) (inputs inputs' : List LoopInput) :
    s.run host (inputs ++ inputs') = (s.run host inputs).run host inputs' := by
  rw [run, run, run, List.foldl_append]

/-- The rounds of a step that dispatches a message are those of its handler. -/
theorem step_dispatched (hs : s.bridge.serving = none) (hm : s.dispatched = some m) (i : LoopInput) :
    (s.step host i).bridge.rounds = ((s.seeing i).onMessage host m).2.rounds := by
  have h := step_bridge host s i hs
  generalize (s.step host i).bridge = c at h
  cases h with
  | call hn => rw [hn] at hm; cases hm
  | route hm' h hc =>
    cases hm.symm.trans hm'
    obtain ⟨msgs, completed, he⟩ := hc.same
    rw [he]

/-- A message is not dispatched to wait while another waits. -/
theorem dispatched_gate (hm : s.dispatched = some m) (hp : s.bridge.hasPending = true) :
    mayWaitForInput (s.bridge.msgs m) = false := by
  unfold dispatched at hm
  rw [hp] at hm
  split at hm
  · cases hm
  · split at hm
    · cases hm
    · rename_i hno
      cases hm
      simp only [not_or, not_and] at hno
      simpa using hno.2.2 trivial
  · rw [if_pos (.inl rfl)] at hm
    cases hm
  · cases hm

end IoLoop

end Corehost
