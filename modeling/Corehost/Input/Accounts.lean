import Corehost.Input.Steps
import Mathlib.Data.Fintype.Option

/-!
# Every read is completed once

The desk of the I/O loop is kept, in every state that the loop reaches in honest
rounds.

* `Sound`, `Sound.run`: what every such state satisfies, and that a run keeps it;
* `Sound.outcome`: a handler answers its message, or leaves the bridge pending on it;
* `reads_completed_once`: every read is in one place and is completed once.
-/

namespace Corehost

/-- READ_IO has submitted the last completion. -/
def Pc.submitted : Pc → Bool
  | .noMessage => true
  | .route => true
  | .flushed => true
  | .serve => true
  | .exitServing => true
  | _ => false

namespace IoLoop

open Account PipeBridge

variable {δ : Type} {host : Host δ} {s : IoLoop δ} {m : MsgRef} {inHand : Option MsgRef}

/-- The message that was received and is neither answered nor deferred. -/
def hand (s : IoLoop δ) : Option MsgRef :=
  match s.pc with
  | .route => if (s.bridge.msgs s.cur).request = .empty then none else some s.cur
  | .serve => some s.cur
  | .exitServing => some s.cur
  | _ => none

def desk (s : IoLoop δ) (hand : Option MsgRef) : Desk :=
  ⟨s.bridge.account, s.prevDone, s.pendingMsg, s.deferredMsg, hand, s.received⟩

/-- The buffer for the next message is not in use. -/
structure Fresh (s : IoLoop δ) : Prop where
  prevDone : s.prevDone ≠ some s.cur
  pendingMsg : s.pendingMsg ≠ some s.cur
  deferred : s.deferredMsg ≠ some s.cur

structure Sound (s : IoLoop δ) : Prop where
  kept : (s.desk s.hand).Kept
  fresh : s.pc ≠ .exit → s.Fresh
  submitted : Pc.submitted s.pc = true → s.prevDone = none

/-! ## The buffers -/

/-- One of the four buffers is free. -/
theorem exists_free : ∀ a b c : Option MsgRef,
    ∃ m ∈ ([0, 1, 2, 3] : List MsgRef), some m ≠ a ∧ some m ≠ b ∧ some m ≠ c := by
  decide

theorem nextFree_fresh (s : IoLoop δ) (pc : Pc) : Fresh { s with cur := s.nextFree, pc } := by
  have hfree : some s.nextFree ≠ s.prevDone ∧ some s.nextFree ≠ s.pendingMsg ∧ some s.nextFree ≠ s.deferredMsg := by
    unfold nextFree
    cases h : [0, 1, 2, 3].find? fun m => decide (some m ≠ s.prevDone ∧ some m ≠ s.pendingMsg ∧ some m ≠ s.deferredMsg) with
    | none =>
      obtain ⟨m, hmem, hm⟩ := exists_free s.prevDone s.pendingMsg s.deferredMsg
      exact absurd (decide_eq_true hm) (List.find?_eq_none.mp h m hmem)
    | some m =>
      have hm := List.find?_some h
      exact of_decide_eq_true hm
  exact ⟨hfree.1.symm, hfree.2.1.symm, hfree.2.2.symm⟩

/-- Places in the loop at which no message is in hand. -/
theorem sound_plain (hk : (s.desk none).Kept) (hf : s.Fresh) {pc : Pc} (hpc : pc = .top ∨ pc = .idle ∨ pc = .read) :
    Sound { s with pc } := by
  rcases hpc with rfl | rfl | rfl <;> exact ⟨hk, fun _ => ⟨hf.prevDone, hf.pendingMsg, hf.deferred⟩, nofun⟩

theorem sound_exit (hk : (s.desk none).Kept) : Sound { s with pc := .exit } :=
  ⟨hk, fun h => absurd rfl h, nofun⟩

theorem sound_exitOr (hk : (s.desk none).Kept) (hf : s.Fresh) {pc : Pc} (hpc : pc = .top ∨ pc = .idle ∨ pc = .read) :
    Sound (s.exitOr pc) := by
  unfold exitOr
  split
  · exact sound_exit hk
  · exact sound_plain hk hf hpc

theorem kept_call {b : PipeBridge δ} (hk : (s.desk inHand).Kept) (hc : Call host s.bridge b) :
    (desk { s with bridge := b } inHand).Kept :=
  hk.settle hc.settles

theorem kept_forgetPending (hk : (s.desk inHand).Kept) : (s.forgetPending.desk inHand).Kept := by
  unfold forgetPending
  split
  · exact hk
  · rename_i h
    refine hk.forget ?_
    rw [Desk.pending, desk, account, not_hasPending h]
    rfl

theorem Fresh.forgetPending (hf : s.Fresh) : s.forgetPending.Fresh := by
  unfold IoLoop.forgetPending
  split
  · exact hf
  · exact ⟨hf.prevDone, nofun, hf.deferred⟩

/-! ## Dispatch -/

theorem dispatchDeferred_rounds (m : MsgRef) :
    (s.dispatchDeferred host m).bridge.rounds = (s.bridge.onMessage host m).2.rounds := by
  rw [dispatchDeferred_eq]
  split <;> rfl

theorem dispatchDeferred_place (host : Host δ) (s : IoLoop δ) (m : MsgRef) : (s.dispatchDeferred host m).pc = s.pc ∧
    (s.dispatchDeferred host m).cur = s.cur ∧ (s.dispatchDeferred host m).prevDone = s.prevDone := by
  rw [dispatchDeferred_eq]
  split <;> exact ⟨rfl, rfl, rfl⟩

/-- The deferred read is answered, or the bridge keeps it. -/
theorem kept_dispatchDeferred (hk : (s.desk inHand).Kept) (hm : s.deferredMsg = some m) (hp : s.bridge.pending = .none)
    (hon : ∀ r ∈ (s.bridge.onMessage host m).2.rounds, r.Honest host) :
    ((s.dispatchDeferred host m).desk inHand).Kept := by
  have ha := onMessage_answers (m := m) hk.serving (by rw [hp]; nofun)
    (fun h => by simp [hasPending, hp] at h) hon
  rw [dispatchDeferred_eq]
  cases hdone : (s.bridge.onMessage host m).1 with
  | true =>
    obtain ⟨hk', hprep⟩ := hk.answer (.inr hm) ha hdone
    exact hk'.completeDeferred hm hprep
  | false =>
    rw [if_neg Bool.false_ne_true]
    exact hk.waitDeferred hm ha hdone

theorem Fresh.dispatchDeferred (hf : s.Fresh) (hm : s.deferredMsg = some m) : (s.dispatchDeferred host m).Fresh := by
  have hne : some m ≠ some s.cur := by
    rw [← hm]
    exact hf.deferred
  rw [dispatchDeferred_eq]
  split
  · exact ⟨hf.prevDone, hf.pendingMsg, nofun⟩
  · exact ⟨hf.prevDone, hne, nofun⟩

theorem dispatch_rounds (i : LoopInput) : (s.dispatch host i).bridge.rounds = (s.bridge.onMessage host s.cur).2.rounds := by
  unfold dispatch
  generalize s.bridge.onMessage host s.cur = r
  obtain ⟨done, b⟩ := r
  dsimp only
  split
  · split
    · rfl
    · split <;> rfl
  · split <;> rfl

/-- The message in hand is answered, or the bridge keeps it. -/
theorem sound_dispatch (hk : (s.desk (some s.cur)).Kept) (hf : s.Fresh) (hprev : s.prevDone = none)
    (hgate : s.bridge.hasPending = true → mayWaitForInput (s.bridge.msgs s.cur) = false) (i : LoopInput)
    (hon : ∀ r ∈ (s.dispatch host i).bridge.rounds, r.Honest host) : Sound (s.dispatch host i) := by
  rw [dispatch_rounds] at hon
  have ha := onMessage_answers hk.serving (hk.distinct.2.2 s.cur rfl).2 hgate hon
  unfold dispatch
  generalize s.bridge.onMessage host s.cur = r at ha ⊢
  obtain ⟨done, b⟩ := r
  dsimp only at ha ⊢
  cases done with
  | true =>
    obtain ⟨hk', hprep⟩ := hk.answer (.inl rfl) ha rfl
    have hk'' := hk'.completeHand rfl hprep
    rw [if_pos rfl]
    split
    · refine ⟨?_, fun _ => ⟨nofun, hf.pendingMsg, hf.deferred⟩, fun _ => rfl⟩
      rw [← hprev]
      exact hk''
    · split
      · exact sound_exit hk''
      · refine ⟨hk'.park rfl hprev hprep, fun _ => ?_, nofun⟩
        exact nextFree_fresh { s with bridge := b, prevDone := some s.cur } .top
  | false =>
    rw [if_neg Bool.false_ne_true]
    have hk' := hk.waitHand rfl ha rfl
    split
    · exact sound_exit (s := { s with bridge := b, pendingMsg := some s.cur }) hk'
    · exact ⟨hk', fun _ => nextFree_fresh { s with bridge := b, pendingMsg := some s.cur } .top, nofun⟩

/-! ## Steps -/

theorem mem_buffers_fresh (hk : (s.desk none).Kept) (hf : s.Fresh) : s.cur ∉ (s.desk none).ledger.buffers := by
  rw [Desk.mem_buffers]
  rintro (((h | h) | h) | h)
  · exact hf.prevDone h
  · exact hf.pendingMsg (hk.pendingMsg _ h)
  · exact hf.deferred h
  · cases h

/-- READ_IO submits the last completion, and clears the buffer for the next message. -/
theorem kept_submit (hk : (s.desk none).Kept) (hf : s.Fresh) :
    (s.submit.desk none).Kept ∧ s.submit.Fresh ∧ s.submit.prevDone = none := by
  unfold submit
  cases hprev : s.prevDone with
  | none =>
    have hk' := hk.clear (mem_buffers_fresh hk hf) { complete := (s.bridge.msgs s.cur).complete }
    rw [desk, hprev] at hk'
    exact ⟨hk', ⟨nofun, hf.pendingMsg, hf.deferred⟩, rfl⟩
  | some m =>
    have hk1 := hk.submit hprev
    have hk' := hk1.clear (mem_buffers_fresh (s := { s.completeIo m with prevDone := none }) hk1
      ⟨nofun, hf.pendingMsg, hf.deferred⟩) { complete := (s.bridge.msgs s.cur).complete }
    exact ⟨hk', ⟨nofun, hf.pendingMsg, hf.deferred⟩, rfl⟩

theorem sound_read (hk : (s.desk none).Kept) (hf : s.Fresh) (i : LoopInput) : Sound (s.read i) := by
  obtain ⟨hk', hf', hprev⟩ := kept_submit hk hf
  unfold read
  split
  · exact sound_exit hk
  · exact ⟨hk', fun _ => ⟨hf'.prevDone, hf'.pendingMsg, hf'.deferred⟩, fun _ => hprev⟩
  · rename_i process request hreq
    have hk'' := hk'.receive (mem_buffers_fresh hk' hf') rfl
      { s.submit.bridge.msgs s.submit.cur with identifier := s.submit.received.length + 1, process, request } rfl
    refine ⟨?_, fun _ => ⟨hf'.prevDone, hf'.pendingMsg, hf'.deferred⟩, fun _ => hprev⟩
    have hh : (s.submit.receive process request).hand = if request = .empty then none else some s.submit.cur := by
      simp [hand, receive, PipeBridge.setMsg]
    rw [hh]
    exact hk''

theorem sound_connect (hk : (s.desk (some s.cur)).Kept) (hf : s.Fresh) (hprev : s.prevDone = none) (i : LoopInput) :
    Sound (s.connect i) := by
  have hne : (s.desk (some s.cur)).prevDone ≠ some s.cur := hf.prevDone
  have hk' := hk.prepare { identifier := (s.bridge.msgs s.cur).identifier } hne
  have hprep : (s.bridge.prepare s.cur).account.Prepared s.cur :=
    ⟨{ identifier := (s.bridge.msgs s.cur).identifier },
      by simp [account, PipeBridge.prepare, PipeBridge.setMsg, IoMsg.prepareCompletion],
      by simp [account, PipeBridge.prepare, PipeBridge.setMsg, IoMsg.prepareCompletion]⟩
  unfold connect
  dsimp only
  split
  · have hk'' := hk'.completeHand rfl hprep
    refine ⟨?_, fun _ => nextFree_fresh _ .top, fun hpc => absurd hpc Bool.false_ne_true⟩
    rw [desk, hprev] at hk''
    exact hk''
  · exact ⟨hk'.park rfl hprev hprep, fun _ => nextFree_fresh _ .top, fun hpc => absurd hpc Bool.false_ne_true⟩

theorem sound_route (h : s.Sound) (hpc : s.pc = .route) (i : LoopInput)
    (hon : ∀ r ∈ (s.route host i).bridge.rounds, r.Honest host) : Sound (s.route host i) := by
  have hf : s.Fresh := h.fresh (by rw [hpc]; nofun)
  have hprev : s.prevDone = none := h.submitted (by rw [hpc]; rfl)
  have hk := h.kept
  rw [hand, hpc] at hk
  unfold route at hon ⊢
  split
  · rename_i hreq
    dsimp only at hk
    rw [if_pos hreq] at hk
    exact sound_exitOr (kept_call hk (call_onIdle _)) ⟨hf.prevDone, hf.pendingMsg, hf.deferred⟩ (.inl rfl)
  · rename_i hreq
    dsimp only at hk
    rw [hreq, if_neg nofun] at hk
    exact sound_connect hk hf hprev i
  · rename_i hempty hconnect
    dsimp only at hk
    rw [if_neg hempty] at hk
    by_cases hgate : s.bridge.hasPending = true ∧ mayWaitForInput (s.bridge.msgs s.cur) = true
    · rw [if_pos hgate]
      split
      · rename_i hd
        exact ⟨hk.defer rfl hd, fun _ => nextFree_fresh { s with deferredMsg := some s.cur } .top, nofun⟩
      · exact ⟨hk, fun _ => ⟨hf.prevDone, hf.pendingMsg, hf.deferred⟩, fun _ => hprev⟩
    · rw [if_neg hgate]
      have hon' : ∀ r ∈ (s.dispatch host i).bridge.rounds, r.Honest host := by
        revert hon
        split
        · rename_i h
          exact absurd h hempty
        · rename_i h
          exact absurd h hconnect
        · rw [if_neg hgate]
          exact id
      refine sound_dispatch hk hf hprev (fun hp => ?_) i hon'
      rw [← Bool.not_eq_true]
      exact fun hw => hgate ⟨hp, hw⟩

theorem sound_serve (h : s.Sound) (hpc : s.pc = .serve) (i : LoopInput)
    (hon : ∀ r ∈ (s.serve host i).bridge.rounds, r.Honest host) : Sound (s.serve host i) := by
  have hf : s.Fresh := h.fresh (by rw [hpc]; decide)
  have hprev : s.prevDone = none := h.submitted (by rw [hpc]; rfl)
  have hk : (s.desk (some s.cur)).Kept := by
    have hk := h.kept
    rw [hand, hpc] at hk
    exact hk
  unfold serve at hon ⊢
  by_cases hpend : s.bridge.hasPending = true
  · rw [if_pos hpend]
    refine ⟨?_, fun _ => ⟨hf.prevDone, hf.pendingMsg, hf.deferred⟩, fun _ => hprev⟩
    rw [hand]
    dsimp only
    rw [hpc]
    exact kept_call hk (call_waitForPendingVtInput _)
  · rw [if_neg hpend] at hon ⊢
    have hnone : s.bridge.pending = .none := not_hasPending hpend
    have hk' := hk.forget (by rw [Desk.pending, desk, account, hnone]; rfl)
    have hnot : (none : Option MsgRef) ≠ some s.cur := (Option.some_ne_none _).symm
    have hf' : Fresh { s with pendingMsg := none } := ⟨hf.prevDone, hnot, hf.deferred⟩
    dsimp only at hon ⊢
    by_cases hexit : s.bridge.shouldExit = true
    · rw [if_pos hexit]
      exact ⟨hk', fun _ => ⟨hf.prevDone, hnot, hf.deferred⟩, fun _ => hprev⟩
    · rw [if_neg hexit] at hon ⊢
      revert hon
      split
      · rename_i m hd
        intro hon
        have hne : ∀ r ∈ (PipeBridge.onMessage host s.bridge m).2.rounds, r.Honest host := by
          rw [← dispatchDeferred_rounds (s := { s with pendingMsg := none })]
          exact hon
        have hk'' := kept_dispatchDeferred (s := { s with pendingMsg := none }) hk' hd hnone hne
        have hf'' : (dispatchDeferred host { s with pendingMsg := none } m).Fresh := hf'.dispatchDeferred hd
        obtain ⟨hpc', hcur, hprev'⟩ := dispatchDeferred_place host { s with pendingMsg := none } m
        generalize dispatchDeferred host { s with pendingMsg := none } m = s' at hk'' hf'' hpc' hcur hprev'
        refine ⟨?_, fun _ => hf'', fun _ => hprev'.trans hprev⟩
        rw [hand, hpc'.trans hpc]
        dsimp only
        rw [hcur]
        exact hk''
      · intro hon
        exact sound_dispatch hk' hf' hprev (fun hp => absurd hp hpend) i hon

theorem sound_top (h : s.Sound) (hpc : s.pc = .top) (hon : ∀ r ∈ (s.top host).bridge.rounds, r.Honest host) :
    Sound (s.top host) := by
  have hf : s.Fresh := h.fresh (by rw [hpc]; nofun)
  have hk : (s.desk none).Kept := by
    have hk := h.kept
    rw [hand, hpc] at hk
    exact hk
  have hk' := kept_forgetPending hk
  have hf' := hf.forgetPending
  unfold top at hon ⊢
  dsimp only at hon ⊢
  generalize s.forgetPending = s' at hk' hf' hon ⊢
  revert hon
  split
  · rename_i m hd
    by_cases hpend : s'.bridge.hasPending = true
    · rw [if_pos hpend]
      exact fun _ => sound_plain hk' hf' (.inr (.inl rfl))
    · rw [if_neg hpend]
      intro hon
      have hrounds : ∀ r ∈ (s'.bridge.onMessage host m).2.rounds, r.Honest host := by
        rw [← dispatchDeferred_rounds]
        exact hon
      exact sound_exitOr (kept_dispatchDeferred hk' hd (not_hasPending hpend) hrounds) (hf'.dispatchDeferred hd)
        (.inr (.inl rfl))
  · exact fun _ => sound_plain hk' hf' (.inr (.inl rfl))

theorem Sound.forgetPending (h : s.Sound) : Sound s.forgetPending := by
  have hk := kept_forgetPending h.kept
  unfold IoLoop.forgetPending at hk ⊢
  split
  · exact h
  · rename_i hpend
    rw [if_neg hpend] at hk
    exact ⟨hk, fun hpc => ⟨(h.fresh hpc).prevDone, nofun, (h.fresh hpc).deferred⟩, h.submitted⟩

/-- Terminal input is served between messages. -/
theorem sound_onIdle (hk : (s.desk none).Kept) (hf : s.Fresh) (i : LoopInput) {pc : Pc}
    (hpc : pc = .top ∨ pc = .idle ∨ pc = .read) : Sound ((s.onIdle host i).exitOr pc) :=
  sound_exitOr (kept_call hk (call_onIdle _)) ⟨hf.prevDone, hf.pendingMsg, hf.deferred⟩ hpc

theorem sound_idle (hk : (s.desk none).Kept) (hf : s.Fresh) (i : LoopInput) : Sound (s.idle host i) := by
  unfold idle
  split
  · exact (sound_onIdle hk hf i (.inr (.inr rfl))).forgetPending
  · split
    · exact sound_onIdle hk hf i (.inr (.inr rfl))
    · exact sound_plain hk hf (.inr (.inr rfl))

theorem sound_flushed (hk : (s.desk none).Kept) (i : LoopInput) :
    Sound { (s.onIdle host i).exitOr .top with cur := ((s.onIdle host i).exitOr .top).nextFree } := by
  have hk' : ((s.onIdle host i).desk none).Kept := kept_call hk (call_onIdle _)
  unfold exitOr
  split
  · exact ⟨hk', fun _ => nextFree_fresh _ .exit, nofun⟩
  · exact ⟨hk', fun _ => nextFree_fresh _ .top, nofun⟩

theorem sound_step (h : s.Sound) (i : LoopInput) (hon : ∀ r ∈ (s.step host i).bridge.rounds, r.Honest host) :
    Sound (s.step host i) := by
  have h' : Sound { s with bridge := { s.bridge with vtIn := { s.bridge.vtIn with seen := i.seen } } } :=
    ⟨h.kept, fun hpc => ⟨(h.fresh hpc).prevDone, (h.fresh hpc).pendingMsg, (h.fresh hpc).deferred⟩, h.submitted⟩
  unfold step at hon ⊢
  dsimp only at hon ⊢
  generalize hs : { s with bridge := { s.bridge with vtIn := { s.bridge.vtIn with seen := i.seen } } } = s' at h' hon ⊢
  rw [show s.pc = s'.pc by rw [← hs]] at hon ⊢
  have hplain : s'.hand = none → (s'.desk none).Kept := fun hn => hn ▸ h'.kept
  have hfresh : s'.pc ≠ .exit → s'.Fresh := h'.fresh
  cases hpc : s'.pc with
  | top =>
    simp only [hpc] at hon ⊢
    exact sound_top h' hpc hon
  | idle => exact sound_idle (hplain (by rw [hand, hpc])) (hfresh (by rw [hpc]; nofun)) i
  | read => exact sound_read (hplain (by rw [hand, hpc])) (hfresh (by rw [hpc]; nofun)) i
  | noMessage => exact sound_onIdle (hplain (by rw [hand, hpc])) (hfresh (by rw [hpc]; nofun)) i (.inl rfl)
  | route =>
    simp only [hpc] at hon ⊢
    exact sound_route h' hpc i hon
  | flushed => exact sound_flushed (hplain (by rw [hand, hpc])) i
  | serve =>
    simp only [hpc] at hon ⊢
    exact sound_serve h' hpc i hon
  | exit => exact h'
  | exitServing => exact h'

/-! ## Runs -/

/-- Every state of an honest run is sound. -/
theorem Sound.run (h : s.Sound) (inputs : List LoopInput)
    (hon : ∀ r ∈ (s.run host inputs).bridge.rounds, r.Honest host) : Sound (s.run host inputs) := by
  induction inputs generalizing s with
  | nil => exact h
  | cons i inputs ih =>
    have hmoves := run_moves host ((step_bridge host s i h.kept.serving).moves.serving h.kept.serving) inputs
    exact ih (sound_step h i fun r hr => hon r (hmoves.rounds.subset hr)) hon

theorem sound_initial (d : δ) (inputMode : Nat) (bytes : List UInt8) : Sound (initial d inputMode bytes) := by
  refine ⟨⟨rfl, rfl, ⟨?_, rfl⟩, nofun, nofun, nofun, nofun⟩, fun _ => ⟨nofun, nofun, nofun⟩, nofun⟩
  exact Multiset.nodup_zero

/-! ## Reads -/

theorem requested_nodup {received : List IoMsg}
    (hids : received.map IoMsg.identifier = List.range' 1 received.length) : (Desk.requested received).Nodup := by
  refine Multiset.coe_nodup.mpr (List.Nodup.sublist (List.filter_sublist.map _) ?_)
  rw [hids]
  exact List.nodup_range'

/-- The identifier of a message is its number. -/
theorem received_eq {received : List IoMsg} (hids : received.map IoMsg.identifier = List.range' 1 received.length)
    {r r' : IoMsg} (hr : r ∈ received) (hr' : r' ∈ received) (h : r.identifier = r'.identifier) : r = r' := by
  have hn : (received.map IoMsg.identifier).Nodup := by
    rw [hids]
    exact List.nodup_range'
  exact List.inj_on_of_nodup_map hn hr hr' h

/-- The requests, place by place: those that are completed, the reads of
processes that have left, and those in the buffers. -/
def places (s : IoLoop δ) : Multiset Nat := (s.desk s.hand).ledger.places

/-- The message that a step dispatches is in hand or deferred. -/
theorem dispatched_held (hm : s.dispatched = some m) : s.hand = some m ∨ s.deferredMsg = some m := by
  unfold dispatched at hm
  split at hm
  · split at hm
    · cases hm
    · exact .inr hm
  · rename_i hpc
    split at hm
    · cases hm
    · rename_i hno
      rw [not_or] at hno
      rw [hand, hpc]
      dsimp only
      rw [if_neg hno.1]
      exact .inl hm
  · rename_i hpc
    split at hm
    · cases hm
    · cases hd : s.deferredMsg with
      | none =>
        rw [hd] at hm
        rw [hand, hpc]
        exact .inl hm
      | some m' =>
        rw [hd] at hm
        exact .inr hm
  · cases hm

/-- The handler of the dispatched message answers it, or leaves the bridge pending on it. -/
theorem Sound.outcome (h : s.Sound) (hm : s.dispatched = some m) {i : LoopInput}
    (hon : ∀ r ∈ (s.step host i).bridge.rounds, r.Honest host) :
    ((s.seeing i).onMessage host m).1 = true ∧ ((s.seeing i).onMessage host m).2.account.Prepared m ∧
        ((s.seeing i).onMessage host m).2.pending.request? ≠ some m ∨
      ((s.seeing i).onMessage host m).1 = false ∧ ((s.seeing i).onMessage host m).2.pending.request? = some m ∧
        ((s.seeing i).onMessage host m).2.msgs m = s.bridge.msgs m := by
  rw [step_dispatched h.kept.serving hm] at hon
  have hne : s.bridge.pending.request? ≠ some m := by
    rcases dispatched_held hm with hd | hd
    · exact (h.kept.distinct.2.2 m hd).2
    · exact (h.kept.distinct.2.1 m hd).2
  have ha := onMessage_answers (b := s.seeing i) h.kept.serving hne (dispatched_gate hm) hon
  exact ha.outcome hne

/-- In every honest run: a handler returns true exactly when it has prepared the
completion of its message, and leaves the bridge pending on it otherwise; every
read that was received is in one place, and is withdrawn only when its process has
left; and READ_IO does not get the pending buffer. -/
theorem reads_completed_once (d : δ) (inputMode : Nat) (bytes : List UInt8) (inputs : List LoopInput) (i : LoopInput)
    (hon : ∀ r ∈ (run host (initial d inputMode bytes) (inputs ++ [i])).bridge.rounds, r.Honest host) :
    let s := run host (initial d inputMode bytes) inputs
    (∀ m, s.dispatched = some m →
      ((s.seeing i).onMessage host m).1 = true ∧ ((s.seeing i).onMessage host m).2.account.Prepared m ∧
          ((s.seeing i).onMessage host m).2.pending.request? ≠ some m ∨
        ((s.seeing i).onMessage host m).1 = false ∧ ((s.seeing i).onMessage host m).2.pending.request? = some m ∧
          ((s.seeing i).onMessage host m).2.msgs m = s.bridge.msgs m) ∧
      (∀ r ∈ s.received, r.request.isRead = true → s.places.count r.identifier = 1 ∧
        (r.identifier ∈ s.bridge.dropped → ∃ r' ∈ s.received, r'.request = .disconnect ∧ r'.process = r.process)) ∧
      (s.pc = .read → s.bridge.pending.request? ≠ some s.cur) := by
  intro s
  have hrun : run host (initial d inputMode bytes) (inputs ++ [i]) = s.step host i := run_append _ _ _
  rw [hrun] at hon
  have hserving : s.bridge.serving = none := (run_moves host rfl inputs).serving rfl
  have hmoves := (step_bridge host s i hserving).moves
  have hs : Sound s := (sound_initial d inputMode bytes).run inputs fun r hr => hon r (hmoves.rounds.subset hr)
  refine ⟨fun m hm => hs.outcome hm hon, fun r hr hread => ?_, fun hpc hcur => ?_⟩
  · have hmem : r.identifier ∈ Desk.requested s.received := by
      refine Multiset.mem_coe.mpr (List.mem_map_of_mem (List.mem_filter.mpr ⟨hr, ?_⟩))
      cases hreq : r.request <;> rw [hreq] at hread <;> first | rfl | cases hread
    refine ⟨hs.kept.balanced.count_eq_one (requested_nodup hs.kept.ids) hmem, fun hid => ?_⟩
    obtain ⟨r', hr', hid', r'', hr'', hreq, hprocess⟩ := hs.kept.dropped _ hid
    have he : r' = r := received_eq hs.kept.ids hr' hr hid'
    exact ⟨r'', hr'', hreq, he ▸ hprocess⟩
  · exact (hs.fresh (by rw [hpc]; nofun)).pendingMsg (hs.kept.pendingMsg _ hcur)

/-- A host for streams of control characters and escape sequences in ASCII. -/
def asciiHost : Host Unit where
  decode d byte := (some byte.toNat, d)
  expectedLength _ := 1
  vkKeyScan _ := -1
  mapVirtualKey _ := 0

/-- A raw read that finds CR LF. -/
theorem reads_completed_once_line :
    let inputs : List LoopInput := [{}, {}, { readIo := .message 1 (.rawRead 16) }]
    let i : LoopInput := { seen := [{ count := 2 }] }
    let s := run asciiHost (initial () 0 [0x0D, 0x0A]) inputs
    s.dispatched = some 0 ∧ ((s.seeing i).onMessage asciiHost 0).2.account.Prepared 0 := by
  intro inputs i s
  have hon : ∀ r ∈ (run asciiHost (initial () 0 [0x0D, 0x0A]) (inputs ++ [i])).bridge.rounds, r.Honest asciiHost := by
    decide
  have hm : s.dispatched = some 0 := by decide
  refine ⟨hm, ?_⟩
  rcases (reads_completed_once () 0 [0x0D, 0x0A] inputs i hon).1 0 hm with ⟨-, h, -⟩ | ⟨h, -⟩
  · exact h
  · exact absurd h (by decide)

/-- The Enter key as Windows Terminal sends it, when a raw read asks for input:
the handler says that the read is completed, and the bridge is still pending on it. -/
theorem win32_enter_not_completed :
    let inputs : List LoopInput := [{}, {}, { readIo := .message 1 (.rawRead 64) }]
    let i : LoopInput := { seen := [{ count := 17 }] }
    let s := run asciiHost (initial () 0 "\x1b[13;28;13;1;0;1_".toUTF8.toList) inputs
    s.dispatched = some 0 ∧ ((s.seeing i).onMessage asciiHost 0).1 = true ∧
      ((s.seeing i).onMessage asciiHost 0).2.pending = .rawRead 0 ∧ (s.step asciiHost i).places.count 1 = 2 := by
  decide +kernel

end IoLoop

end Corehost
