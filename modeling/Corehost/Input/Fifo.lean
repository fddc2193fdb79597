import Corehost.Input.Disconnect

/-!
# Terminal input is a queue

In every run of the I/O loop the bytes that were taken and those that are still
queued are the input, in order (`input_in_order`), as long as no chunk ends
between a CR that ends a line and an LF that is out of reach
(`Round.KeepsPair`). What a raw read returns are the bytes that it took:
`Filled` is the invariant, and `Filled.step` its step.
-/

namespace Corehost

namespace IoLoop

open Account PipeBridge

variable {δ : Type} {host : Host δ} {s : IoLoop δ} {i : LoopInput} {c : PipeBridge δ} {id : Nat} {m : MsgRef}

theorem StepBridge.sameMessage (h : StepBridge host s i c) (hm : s.pc = .read → m ≠ s.cur) :
    SameMessage s.bridge.account c.account m := by
  cases h with
  | call hn h hc => exact (h.settles.sameMessage m).trans (hc.messages m hm)
  | route hd h hc => exact (h.sameMessage m).trans (hc.messages m hm)

/-! ## Answered requests -/

/-- The request is completed or withdrawn, or READ_IO will submit its completion. -/
def Answered (s : IoLoop δ) (id : Nat) : Prop :=
  s.Closed id ∨ ∃ m, s.prevDone = some m ∧ (s.bridge.msgs m).identifier = id

/-- The buffers of the requests that are not answered. -/
def Open (s : IoLoop δ) (m : MsgRef) : Prop :=
  s.bridge.pending.request? = some m ∨ s.deferredMsg = some m ∨ s.hand = some m

theorem Open.mem_buffers (h : s.Open m) : m ∈ (s.desk s.hand).ledger.buffers := by
  rw [Desk.mem_buffers]
  rcases h with h | h | h
  · exact .inl (.inl (.inr h))
  · exact .inl (.inr h)
  · exact .inr h

/-- The messages in the buffers are different. -/
theorem Sound.identifier_inj (h : s.Sound) {m m' : MsgRef} (hm : m ∈ (s.desk s.hand).ledger.buffers)
    (hm' : m' ∈ (s.desk s.hand).ledger.buffers) (he : (s.bridge.msgs m).identifier = (s.bridge.msgs m').identifier) :
    m = m' := by
  have hn : (s.desk s.hand).ledger.places.Nodup := by
    rw [h.kept.balanced.places]
    exact requested_nodup h.kept.ids
  exact Multiset.inj_on_of_nodup_map (Multiset.nodup_add.mp hn).2.1 m hm m' hm' he

theorem Sound.not_answered (h : s.Sound) (hm : s.Open m) : ¬s.Answered (s.bridge.msgs m).identifier := by
  rintro (hid | ⟨m', hprev, he⟩)
  · exact h.not_held hid m hm.mem_buffers rfl
  · have hmm := h.identifier_inj (Desk.mem_buffers.mpr (.inl (.inl (.inl hprev)))) hm.mem_buffers he
    subst hmm
    have hd := h.kept.distinct
    rcases hm with hm | hm | hm
    · exact hd.1 m' hm hprev
    · exact (hd.2.1 m' hm).1 hprev
    · exact (hd.2.2 m' hm).1 hprev

/-! ## What a step does to the pointers -/

theorem step_prevDone (hpc : s.pc = .top ∨ s.pc = .idle ∨ s.pc = .exit) : (s.step host i).prevDone = s.prevDone := by
  have hforget : ∀ s : IoLoop δ, s.forgetPending.prevDone = s.prevDone := by
    intro s
    unfold forgetPending
    split <;> rfl
  rw [step_eq]
  rcases hpc with hpc | hpc | hpc
  · rw [hpc]
    dsimp only
    unfold top
    dsimp only
    split
    · split
      · exact hforget _
      · exact (dispatchDeferred_place _ _ _).2.2.trans (hforget _)
    · exact hforget _
  · rw [hpc]
    dsimp only
    unfold idle
    split
    · exact hforget _
    · split <;> rfl
  · rw [hpc]

theorem submit_completed (hprev : s.prevDone = some m) :
    s.submit.bridge.completed = s.bridge.completed ++ (s.bridge.msgs m).complete.toList := by
  unfold submit
  rw [hprev]
  rfl

/-- READ_IO submits the completion that was prepared, or the loop ends with it. -/
theorem answered_read (h : s.Sound) (hpc : s.pc = .read) (hprev : s.prevDone = some m) :
    (s.step host i).Answered (s.bridge.msgs m).identifier := by
  obtain ⟨completion, hc, hcid⟩ := h.kept.prepared m hprev
  have hc : (s.bridge.msgs m).complete = some completion := hc
  have hcid : completion.identifier = (s.bridge.msgs m).identifier := hcid
  have hsubmit := submit_completed (s := { s with bridge := s.seeing i }) hprev
  rw [show ({ s with bridge := s.seeing i } : IoLoop δ).bridge.msgs m = s.bridge.msgs m from rfl, hc] at hsubmit
  have hmem : ∀ s' : IoLoop δ, s'.bridge.completed = (submit { s with bridge := s.seeing i }).bridge.completed →
      s'.Answered (s.bridge.msgs m).identifier := by
    intro s' hs'
    refine .inl (Multiset.mem_add.mpr (.inl ?_))
    rw [show s'.bridge.account.completed = _ from hs', hsubmit]
    exact List.mem_map.mpr ⟨completion, List.mem_append_right _ (List.mem_singleton_self _), hcid⟩
  rw [step_read hpc]
  unfold read
  split
  · exact .inr ⟨m, hprev, rfl⟩
  · exact hmem _ rfl
  · exact hmem _ rfl

theorem Answered.step (h : s.Sound) (hid : s.Answered id) : (s.step host i).Answered id := by
  have hstep := step_bridge host s i h.kept.serving
  rcases hid with hid | ⟨m, hprev, he⟩
  · exact .inl (Closed.of_grows hid hstep.grows)
  · by_cases hread : s.pc = .read
    · exact he ▸ answered_read h hread hprev
    · have hpc : s.pc = .top ∨ s.pc = .idle ∨ s.pc = .exit := by
        have hsub : Pc.submitted s.pc ≠ true := fun hsub => by
          rw [h.submitted hsub] at hprev
          cases hprev
        cases hpc : s.pc <;> rw [hpc] at hsub hread <;> simp [Pc.submitted] at hsub hread ⊢
      exact .inr ⟨m, (step_prevDone hpc).trans hprev, (hstep.sameMessage fun hr => absurd hr hread).1.trans he⟩

/-! ## What raw reads return -/

/-- What was read so far: by the pending read, by the others, and for the completions. -/
structure Filled (s : IoLoop δ) : Prop where
  rawOk : s.bridge.RawOk
  kind : Kind s.bridge
  readers : ∀ t ∈ s.bridge.consumed, ∀ id, t.reader = some id →
    s.Answered id ∨ ∃ m, s.bridge.pending.request? = some m ∧ (s.bridge.msgs m).identifier = id
  answered : ∀ completion, HasCompletion s.bridge completion → s.Answered completion.identifier
  raw : ∀ completion, HasCompletion s.bridge completion → ∀ r ∈ s.received, r.identifier = completion.identifier →
    ∀ size, r.request = .rawRead size → RawDone (credited r.identifier s.bridge) r.rawReadCapacity completion

theorem reader_pending (hid : s.bridge.reader = some id) :
    ∃ m, s.bridge.pending.request? = some m ∧ (s.bridge.msgs m).identifier = id := by
  unfold PipeBridge.reader at hid
  split at hid
  · rename_i m hp
    exact ⟨m, by rw [hp]; rfl, Option.some.inj hid⟩
  · rename_i m hp
    exact ⟨m, by rw [hp]; rfl, Option.some.inj hid⟩
  · cases hid

theorem dispatched_open (hm : s.dispatched = some m) : s.Open m := by
  rcases dispatched_held hm with h | h
  · exact .inr (.inr h)
  · exact .inr (.inl h)

/-- A message that was answered takes no input in the next step. -/
theorem credited_answered (h : s.Sound) (hid : s.Answered id) :
    credited id (s.step host i).bridge = credited id s.bridge := by
  obtain ⟨new, he, hnew⟩ := (step_bridge host s i h.kept.serving).takenFor
  rw [credited, credited, he, List.filter_append, List.filterMap_append, List.append_right_eq_self]
  have hnone : new.filter (fun t => t.reader = some id) = [] := by
    refine List.filter_eq_nil_iff.mpr fun t ht hr => ?_
    rcases hnew t ht id (of_decide_eq_true hr) with h' | ⟨m, hm, rfl⟩
    · obtain ⟨m, hm, rfl⟩ := reader_pending h'
      exact h.not_answered (.inl hm) hid
    · exact h.not_answered (dispatched_open hm) hid
  rw [hnone, List.filterMap_nil]

theorem closed_completeIo {s : IoLoop δ} (hp : s.bridge.account.Prepared m) :
    (s.completeIo m).Closed (s.bridge.msgs m).identifier := by
  obtain ⟨completion, hc, hid⟩ := hp
  have hc : (s.bridge.msgs m).complete = some completion := hc
  refine Multiset.mem_add.mpr (.inl (Multiset.mem_coe.mpr (List.mem_map.mpr ⟨completion, ?_, hid⟩)))
  refine List.mem_append_right _ ?_
  rw [hc]
  exact List.mem_singleton_self _

/-- The message that was dispatched is answered, or it is the pending one. -/
theorem dispatched_answered (h : s.Sound) (hm : s.dispatched = some m)
    (hon : ∀ r ∈ (s.step host i).bridge.rounds, r.Honest host) :
    (s.step host i).Answered (s.bridge.msgs m).identifier ∨ (s.step host i).bridge.pending.request? = some m := by
  have hout := h.outcome hm hon
  have hid : (((s.seeing i).onMessage host m).2.msgs m).identifier = (s.bridge.msgs m).identifier :=
    ((onMessage_routes (b := s.seeing i) h.kept.serving (dispatched_gate hm)).sameMessage m).1
  rw [← hid]
  have hdeferred : (dispatchDeferred host { s with bridge := s.seeing i, pendingMsg := none } m).Answered
        (((s.seeing i).onMessage host m).2.msgs m).identifier ∨
      (dispatchDeferred host { s with bridge := s.seeing i, pendingMsg := none } m).bridge.pending.request? = some m := by
    rw [dispatchDeferred_eq]
    rcases hout with ⟨hdone, hprep, -⟩ | ⟨hdone, hp, -⟩
    · rw [if_pos hdone]
      exact .inl (.inl (closed_completeIo (s := IoLoop.mk _ _ _ _ _ _ _) hprep))
    · rw [if_neg (by rw [hdone]; nofun)]
      exact .inr hp
  rcases step_cases host hm i with ⟨-, ⟨-, he⟩ | ⟨-, he⟩⟩ | ⟨rfl, -, pendingMsg, he⟩
  · rw [he]
    exact hdeferred
  · rw [he]
    exact hdeferred
  · rw [he]
    unfold dispatch
    dsimp only
    generalize (s.seeing i).onMessage host s.cur = r at hout ⊢
    obtain ⟨done, b⟩ := r
    rcases hout with ⟨rfl, hprep, -⟩ | ⟨rfl, hp, -⟩
    · have hclosed := closed_completeIo (s := { s with bridge := b, pendingMsg }) hprep
      rw [if_pos rfl]
      left
      split
      · exact .inl hclosed
      · split
        · exact .inl hclosed
        · exact .inr ⟨s.cur, rfl, rfl⟩
    · rw [if_neg Bool.false_ne_true]
      right
      split <;> exact hp

/-- The pending request is still pending, or it is answered. -/
theorem pending_answered (h : s.Sound) (hm : s.bridge.pending.request? = some m) :
    (s.step host i).Answered (s.bridge.msgs m).identifier ∨ (s.step host i).bridge.pending.request? = some m := by
  have hserving : s.bridge.serving = none := h.kept.serving
  have hstep := step_bridge host s i hserving
  have hbridge : (s.bridge.msgs m).identifier ∈ (s.step host i).bridge.account.closed ∨
      (s.step host i).bridge.pending.request? = some m := by
    generalize (s.step host i).bridge = c at hstep
    cases hstep with
    | @call b c hn hcall hc =>
      have hg := hc.grows
      obtain ⟨msgs, completed, rfl⟩ := hc.same
      rcases closed_of_settles hcall.settles hserving hm with h | h
      · exact .inr h
      · exact .inl (Closed.of_grows h hg)
    | @route m' c hm' hroutes hc =>
      have hg := hc.grows
      obtain ⟨msgs, completed, he⟩ := hc.same
      rcases hroutes.pending hserving hm with h | h
      · rw [he]
        exact .inr h
      · exact .inl (Closed.of_grows h hg)
  exact hbridge.imp_left .inl

theorem Filled.unread (hf : s.Filled) (h : s.Sound) (hm : s.dispatched = some m) (i : LoopInput) :
    Unread (s.seeing i) m := by
  have hopen := dispatched_open hm
  have hpend : s.bridge.pending.request? ≠ some m := by
    rcases dispatched_held hm with hd | hd
    · exact (h.kept.distinct.2.2 m hd).2
    · exact (h.kept.distinct.2.1 m hd).2
  have hother : ∀ m', s.bridge.pending.request? = some m' → (s.bridge.msgs m').identifier ≠ (s.bridge.msgs m).identifier := by
    intro m' hm' he
    have := h.identifier_inj (Open.mem_buffers (.inl hm')) hopen.mem_buffers he
    exact hpend (this ▸ hm')
  refine ⟨fun t ht hr => ?_, fun hr => ?_, hpend⟩
  · rcases hf.readers t ht _ hr with hid | ⟨m', hm', he⟩
    · exact h.not_answered hopen hid
    · exact hother m' hm' he
  · obtain ⟨m', hm', he⟩ := reader_pending (s := s) hr
    exact hother m' hm' he

/-! ## The messages -/

theorem step_received (s : IoLoop δ) (i : LoopInput) : s.received <+: (s.step host i).received := by
  have hdeferred : ∀ (s : IoLoop δ) m, (s.dispatchDeferred host m).received = s.received := by
    intro s m
    rw [dispatchDeferred_eq]
    split <;> rfl
  have hdispatch : ∀ s : IoLoop δ, (s.dispatch host i).received = s.received := by
    intro s
    unfold dispatch
    generalize s.bridge.onMessage host s.cur = r
    obtain ⟨done, b⟩ := r
    dsimp only
    split
    · split
      · rfl
      · split <;> rfl
    · split <;> rfl
  have hforget : ∀ s : IoLoop δ, s.forgetPending.received = s.received := by
    intro s
    unfold forgetPending
    split <;> rfl
  have hsubmit : ∀ s : IoLoop δ, s.submit.received = s.received := by
    intro s
    unfold submit
    split <;> rfl
  have heq : ∀ {received : List IoMsg}, received = s.received → s.received <+: received := fun h => h ▸ List.prefix_rfl
  rw [step_eq]
  split
  · refine heq ?_
    unfold top
    dsimp only
    split
    · split
      · exact hforget _
      · exact (hdeferred _ _).trans (hforget _)
    · exact hforget _
  · refine heq ?_
    unfold idle
    split
    · exact hforget _
    · split <;> rfl
  · unfold read
    split
    · exact List.prefix_rfl
    · exact heq (hsubmit _)
    · have h := hsubmit { s with bridge := s.seeing i }
      unfold receive
      dsimp only
      rw [h]
      exact List.prefix_append _ _
  · exact List.prefix_rfl
  · refine heq ?_
    unfold route
    split
    · rfl
    · unfold connect
      dsimp only
      split <;> rfl
    · split
      · split <;> rfl
      · exact hdispatch _
  · exact List.prefix_rfl
  · refine heq ?_
    unfold serve
    split
    · rfl
    · dsimp only
      split
      · rfl
      · split
        · exact hdeferred _ _
        · exact hdispatch _
  · exact List.prefix_rfl
  · exact List.prefix_rfl

theorem connect_answered (hpc : s.pc = .route) (hreq : (s.bridge.msgs s.cur).request = .connect) :
    (s.step host i).Answered (s.bridge.msgs s.cur).identifier := by
  have hprep : ((s.seeing i).prepare s.cur).account.Prepared s.cur :=
    ⟨{ identifier := (s.bridge.msgs s.cur).identifier }, by simp [account, PipeBridge.prepare, PipeBridge.setMsg,
      IoMsg.prepareCompletion, seeing], by simp [account, PipeBridge.prepare, PipeBridge.setMsg, IoMsg.prepareCompletion, seeing]⟩
  have hid : (((s.seeing i).prepare s.cur).msgs s.cur).identifier = (s.bridge.msgs s.cur).identifier :=
    (sameMessage_prepare (s.seeing i) s.cur s.cur _ _).1
  have hroute : s.step host i = connect { s with bridge := s.seeing i } i := by
    rw [step_route hpc, route]
    split
    · rename_i he
      rw [show ((s.seeing i).msgs s.cur).request = .connect from hreq] at he
      cases he
    · rfl
    · rename_i hno
      exact absurd hreq hno
  rw [hroute, ← hid, connect]
  dsimp only
  split
  · exact .inl (closed_completeIo (s := { s with bridge := (s.seeing i).prepare s.cur }) hprep)
  · exact .inr ⟨s.cur, rfl, rfl⟩

/-- The message of a request in a buffer. -/
theorem Sound.message (h : s.Sound) (hm : s.Open m) :
    ∃ r ∈ s.received, r.identifier = (s.bridge.msgs m).identifier ∧ r.request = (s.bridge.msgs m).request := by
  obtain ⟨r, hr, h1, -, h3⟩ := h.kept.holds m hm.mem_buffers
  exact ⟨r, hr, h1, h3⟩

/-- The message of an answered request was received before. -/
theorem Sound.message_answered (h : s.Sound) (hid : s.Answered id) : ∃ r ∈ s.received, r.identifier = id := by
  have hmem : id ∈ (s.desk s.hand).ledger.places := by
    rcases hid with hid | ⟨m, hprev, rfl⟩
    · exact Multiset.mem_add.mpr (.inl hid)
    · refine Multiset.mem_add.mpr (.inr (Multiset.mem_map_of_mem (s.desk s.hand).ledger.holder ?_))
      exact Desk.mem_buffers.mpr (.inl (.inl (.inl hprev)))
  rw [h.kept.balanced.places] at hmem
  obtain ⟨r, hr, he⟩ := List.mem_map.mp (Multiset.mem_coe.mp hmem)
  exact ⟨r, (List.mem_filter.mp hr).1, he⟩

/-! ## Steps -/

/-- What a step completes. -/
theorem step_completions (h : s.Sound) (hf : s.Filled) (hon : ∀ r ∈ (s.step host i).bridge.rounds, r.Honest host)
    {completion : Completion} (hex : HasCompletion (s.step host i).bridge completion) :
    HasCompletion s.bridge completion ∨
      (s.pc = .route ∧ (s.bridge.msgs s.cur).request = .connect ∧
        completion.identifier = (s.bridge.msgs s.cur).identifier) ∨
      ∃ m, (s.bridge.pending.request? = some m ∨ s.dispatched = some m) ∧
        Completed s.bridge (s.step host i).bridge m completion := by
  have hserving : s.bridge.serving = none := h.kept.serving
  have hstep := step_bridge host s i hserving
  have hout := fun m (hm : s.dispatched = some m) => h.outcome hm hon
  generalize (s.step host i).bridge = c at hstep hex hout ⊢
  cases hstep with
  | @call b c hn hcall hc =>
    rcases hc.old completion hex with hex | hconnect
    · rcases hcall.completions hf.rawOk hf.kind hex with hex | ⟨m, hm, hcm⟩
      · exact .inl hex
      · obtain ⟨msgs, completed, rfl⟩ := hc.same
        exact .inr (.inr ⟨m, .inl hm, hcm.identifier, hcm.gone, hcm.raw⟩)
    · exact .inr (.inl hconnect)
  | @route m c hm hroutes hc =>
    have hgone : ((s.seeing i).onMessage host m).1 = true → ((s.seeing i).onMessage host m).2.pending.request? ≠ some m := by
      intro hdone
      rcases hout m hm with ⟨-, -, hne⟩ | ⟨hd, -⟩
      · exact hne
      · rw [hdone] at hd
        cases hd
    rcases hc.old completion hex with hex | hconnect
    · rcases hroutes.completions hf.rawOk hf.kind (hf.unread h hm i) hgone hex with hex | ⟨m', hm', hcm⟩
      · exact .inl hex
      · obtain ⟨msgs, completed, he⟩ := hc.same
        have hm' : s.bridge.pending.request? = some m' ∨ s.dispatched = some m' :=
          hm'.imp id fun (h : m' = m) => by rw [h]; exact hm
        rw [he]
        exact .inr (.inr ⟨m', hm', hcm.identifier, hcm.gone, hcm.raw⟩)
    · exact .inr (.inl hconnect)

theorem step_rawOk (host : Host δ) (i : LoopInput) (h : s.Sound) (hf : s.Filled) :
    (s.step host i).bridge.RawOk ∧ Kind (s.step host i).bridge := by
  have hstep := step_bridge host s i h.kept.serving
  have hcur : ∀ m, s.bridge.pending.request? = some m → s.pc = .read → m ≠ s.cur := by
    rintro m hm hpc rfl
    exact (h.fresh (by rw [hpc]; nofun)).pendingMsg (h.kept.pendingMsg _ hm)
  have hhandles : ∀ {b c : PipeBridge δ}, Handles s b c → (∀ m, b.pending.request? = some m → s.pc = .read → m ≠ s.cur) →
      b.RawOk ∧ Kind b → c.RawOk ∧ Kind c := by
    rintro b c hc hne ⟨hraw, hkind⟩
    have hmsgs := hc.messages
    obtain ⟨msgs, completed, rfl⟩ := hc.same
    refine ⟨hraw.congr rfl (fun m hm => hmsgs m (hne m hm)) rfl rfl, fun m size hm hsize => ?_⟩
    exact hkind m size hm ((hmsgs m (hne m hm)).2.2.symm.trans hsize)
  generalize (s.step host i).bridge = c at hstep ⊢
  cases hstep with
  | @call b c hn hcall hc =>
    refine hhandles hc (fun m hm => ?_) ⟨hcall.rawOk hf.rawOk, hcall.kind hf.kind⟩
    rcases hcall.settles.pending_eq with hp | hp
    · rw [show b.pending = s.bridge.pending from hp] at hm
      exact hcur m hm
    · rw [show b.pending = .none from hp] at hm
      cases hm
  | @route m c hm hroutes hc =>
    have hun := hf.unread h hm i
    refine hhandles hc (fun m' _ hpc => ?_) ⟨hroutes.rawOk hf.rawOk hun, hroutes.kind hf.kind hun⟩
    rw [dispatched, hpc] at hm
    cases hm

theorem Filled.step (hf : s.Filled) (h : s.Sound) (hon : ∀ r ∈ (s.step host i).bridge.rounds, r.Honest host) :
    (s.step host i).Filled := by
  have h' : (s.step host i).Sound := sound_step h i hon
  have hmoved : ∀ m, s.bridge.pending.request? = some m ∨ s.dispatched = some m →
      (s.step host i).Answered (s.bridge.msgs m).identifier ∨ (s.step host i).bridge.pending.request? = some m := by
    rintro m (hm | hm)
    · exact pending_answered h hm
    · exact dispatched_answered h hm hon
  obtain ⟨hraw, hkind⟩ := step_rawOk host i h hf
  have hreader : ∀ m, s.bridge.pending.request? = some m ∨ s.dispatched = some m →
      (s.step host i).Answered (s.bridge.msgs m).identifier ∨ ∃ m', (s.step host i).bridge.pending.request? = some m' ∧
        ((s.step host i).bridge.msgs m').identifier = (s.bridge.msgs m).identifier := by
    intro m hm
    refine (hmoved m hm).imp_right fun hp => ⟨m, hp, ?_⟩
    refine ((step_bridge host s i h.kept.serving).sameMessage fun hpc hcur => ?_).1
    rcases hm with hm | hm
    · exact (h.fresh (by rw [hpc]; decide)).pendingMsg (hcur ▸ h.kept.pendingMsg _ hm)
    · rw [dispatched, hpc] at hm
      cases hm
  refine ⟨hraw, hkind, ?_, ?_, ?_⟩
  · obtain ⟨new, he, hnew⟩ := (step_bridge host s i h.kept.serving).takenFor
    intro t ht id hid
    rw [he] at ht
    rcases List.mem_append.mp ht with ht | ht
    · rcases hf.readers t ht id hid with ha | ⟨m, hm, rfl⟩
      · exact .inl (ha.step h)
      · exact hreader m (.inl hm)
    · rcases hnew t ht id hid with hr | ⟨m, hm, rfl⟩
      · obtain ⟨m, hm, rfl⟩ := reader_pending hr
        exact hreader m (.inl hm)
      · exact hreader m (.inr hm)
  · intro completion hex
    rcases step_completions h hf hon hex with hex | ⟨hpc, hreq, hid⟩ | ⟨m, hm, hc⟩
    · exact (hf.answered completion hex).step h
    · rw [hid]
      exact connect_answered hpc hreq
    · rw [hc.identifier]
      exact (hmoved m hm).resolve_right hc.gone
  · intro completion hex r hr hid size hreq
    have hold : ∀ r' ∈ s.received, r'.identifier = r.identifier → r' = r := fun r' hr' he =>
      received_eq h'.kept.ids ((step_received s i).subset hr') hr he
    rcases step_completions h hf hon hex with hex | ⟨hpc, hreq', hid'⟩ | ⟨m, hm, hc⟩
    · have ha := hf.answered completion hex
      obtain ⟨r', hr', he⟩ := h.message_answered ha
      cases hold r' hr' (he.trans hid.symm)
      rw [credited_answered h (hid ▸ ha)]
      exact hf.raw completion hex r hr' hid size hreq
    · have hopen : s.Open s.cur := by
        refine .inr (.inr ?_)
        rw [hand, hpc]
        dsimp only
        rw [hreq', if_neg (by simp)]
      obtain ⟨r', hr', h1, h3⟩ := h.message hopen
      cases hold r' hr' (h1.trans (hid'.symm.trans hid.symm))
      rw [h3.symm.trans hreq] at hreq'
      cases hreq'
    · have hopen : s.Open m := hm.elim .inl dispatched_open
      obtain ⟨r', hr', h1, h3⟩ := h.message hopen
      cases hold r' hr' (h1.trans (hc.identifier.symm.trans hid.symm))
      have hdone := hc.raw size (h3.symm.trans hreq)
      rw [h1, show r.rawReadCapacity = (s.bridge.msgs m).rawReadCapacity by
        rw [IoMsg.rawReadCapacity, IoMsg.rawReadCapacity, h3]]
      exact hdone

theorem filled_initial (d : δ) (inputMode : Nat) (bytes : List UInt8) : Filled (initial d inputMode bytes) := by
  have hnone : ∀ completion, ¬HasCompletion (initial d inputMode bytes).bridge completion := by
    rintro completion (h | ⟨m, h⟩) <;> cases h
  exact ⟨nofun, nofun, nofun, fun completion h => absurd h (hnone completion), fun completion h => absurd h (hnone completion)⟩

theorem Filled.run (hf : s.Filled) (h : s.Sound) (inputs : List LoopInput)
    (hon : ∀ r ∈ (s.run host inputs).bridge.rounds, r.Honest host) : (s.run host inputs).Filled := by
  induction inputs generalizing s with
  | nil => exact hf
  | cons i inputs ih =>
    have hmoves := run_moves host ((step_bridge host s i h.kept.serving).moves.serving h.kept.serving) inputs
    have hstep : ∀ r ∈ (s.step host i).bridge.rounds, r.Honest host := fun r hr => hon r (hmoves.rounds.subset hr)
    exact ih (hf.step h hstep) (sound_step h i hstep) hon

/-- In every run whose chunks keep CR and LF together and whose rounds are honest:
the bytes that were taken and those that are queued are the input in order, no
CR LF ends two lines, and a raw read gets the bytes that it took, unless it is
interrupted. -/
theorem input_in_order (d : δ) (inputMode : Nat) (bytes : List UInt8) (inputs : List LoopInput)
    (hkeep : ∀ r ∈ (run host (initial d inputMode bytes) inputs).bridge.rounds, r.KeepsPair host)
    (hon : ∀ r ∈ (run host (initial d inputMode bytes) inputs).bridge.rounds, r.Honest host) :
    let s := run host (initial d inputMode bytes) inputs
    s.bridge.consumed.filterMap Taken.byte? ++ s.bridge.queuedVtInput ++ s.bridge.vtIn.bytes = bytes ∧
      (byteItems s.bridge.consumed).IsChain NoSecondEnd ∧
      ∀ r ∈ s.received, ∀ size, r.request = .rawRead size → ∀ completion ∈ s.bridge.completed,
        completion.identifier = r.identifier →
          RawDone (credited r.identifier s.bridge) r.rawReadCapacity completion := by
  intro s
  have hmoves := run_moves host (s := initial d inputMode bytes) rfl inputs
  obtain ⟨hstream, hpaired⟩ := hmoves.delivers (fun _ => rfl) hkeep
  have hpaired := hpaired ⟨List.IsChain.nil, nofun⟩
  have hfilled := (filled_initial d inputMode bytes).run (sound_initial d inputMode bytes) inputs hon
  refine ⟨?_, hpaired.chain, fun r hr size hreq completion hmem hid => ?_⟩
  · rw [stream, ahead, List.nil_append, ← List.append_assoc] at hstream
    exact hstream
  · exact hfilled.raw completion (.inl hmem) r hr hid.symm size hreq

/-- A raw read of a line with CR LF, and the completion that it gets. -/
theorem input_in_order_line :
    let s := run asciiHost (initial () 0 [0x0D, 0x0A, 0x0D]) [{}, {}, { readIo := .message 1 (.rawRead 16) },
      { seen := [{ count := 3 }] }, {}, {}, {}]
    s.bridge.completed = [{ identifier := 1, data := .raw [0x0D, 0x0A] }] ∧
      s.bridge.consumed.filterMap Taken.byte? ++ s.bridge.queuedVtInput ++ s.bridge.vtIn.bytes = [0x0D, 0x0A, 0x0D] := by
  intro s
  exact ⟨by decide, (input_in_order () 0 [0x0D, 0x0A, 0x0D] _ (by decide) (by decide)).1⟩

/-- CR CR LF: the first read takes CR, the second has room for one byte and takes
the other CR from the queue, and the LF that is left there ends a third line. -/
theorem crlf_ends_two_lines :
    let s := run asciiHost (initial () 0 [0x0D, 0x0D, 0x0A]) [{}, {}, { readIo := .message 1 (.rawRead 16) },
      { seen := [{ count := 3 }] }, {}, {}, { readIo := .message 1 (.rawRead 1) }, {}, {}, {},
      { readIo := .message 1 (.rawRead 16) }, {}, {}, {}, {}]
    s.bridge.completed.map Completion.identifier = [1, 2, 3] ∧
      s.bridge.completed.map Completion.data = [.raw [0x0D, 0x0A], .raw [0x0D], .raw [0x0D, 0x0A]] ∧
      s.bridge.consumed.map (fun t => (t.reader, t.byte?, t.lineEnd)) = [(some 1, some 0x0D, some 0x0D),
        (some 2, some 0x0D, some 0x0D), (some 3, some 0x0A, some 0x0A)] ∧
      ¬(byteItems s.bridge.consumed).IsChain NoSecondEnd := by
  decide +kernel

end IoLoop

end Corehost
