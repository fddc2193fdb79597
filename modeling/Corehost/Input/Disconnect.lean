import Corehost.Input.Accounts

/-!
# After a DISCONNECT

The reads of a process that has left are not started again, are not completed,
and take no input (`disconnect_ends_reads`), if the loop holds none of them in
`deferred_msg` when the DISCONNECT is routed. A deferred read is replayed later,
whether or not its process is still there.
-/

namespace Corehost

namespace PipeBridge

variable {δ : Type} {host : Host δ} {b c d : PipeBridge δ} {m : MsgRef}

/-- Requests that are answered stay so. -/
structure Grows (b c : PipeBridge δ) : Prop where
  completed : b.completed <+: c.completed
  dropped : b.dropped <+: c.dropped

theorem Grows.refl (b : PipeBridge δ) : Grows b b := ⟨List.prefix_rfl, List.prefix_rfl⟩

theorem Grows.trans (h : Grows b c) (h' : Grows c d) : Grows b d :=
  ⟨h.completed.trans h'.completed, h.dropped.trans h'.dropped⟩

theorem grows_of_settles {a a' : Account} (h : Account.Settles a a') :
    a.completed <+: a'.completed ∧ a.dropped <+: a'.dropped := by
  cases h with
  | same => exact ⟨List.prefix_rfl, List.prefix_rfl⟩
  | @done m completion hm hid =>
    refine ⟨?_, List.prefix_rfl⟩
    unfold Account.finish
    dsimp only
    split
    · exact List.prefix_rfl
    · exact List.prefix_append _ _

theorem Call.grows (h : Call host b c) : Grows b c :=
  ⟨(grows_of_settles h.settles).1, (grows_of_settles h.settles).2⟩

theorem Routes.grows {r : Bool × PipeBridge δ} (h : Routes host b m r) : Grows b r.2 := by
  cases h with
  | prepared h => exact ⟨h.grows.completed, h.grows.dropped⟩
  | written h => exact ⟨h.grows.completed, h.grows.dropped⟩
  | @served b' c hb h =>
    obtain ⟨p, hacc, -⟩ := hb.account
    have hcompleted : b'.completed = b.completed := congrArg Account.completed hacc
    have hdropped : b'.dropped = b.dropped := congrArg Account.dropped hacc
    exact ⟨hcompleted ▸ h.grows.completed, hdropped ▸ h.grows.dropped⟩
  | waits h hp => exact ⟨h.grows.completed, h.grows.dropped⟩
  | @dropped m' hp hreq hprocess =>
    have he : (b.dropPendingReadOf (b.msgs m).process).completed = b.completed ∧
        b.dropped <+: (b.dropPendingReadOf (b.msgs m).process).dropped := by
      simp [dropPendingReadOf, hp, hprocess]
    exact ⟨he.1 ▸ List.prefix_rfl, he.2⟩

/-- New input goes to the pending read, or to the message that is routed. -/
def TakenFor (b c : PipeBridge δ) (m : Option MsgRef) : Prop :=
  ∃ new, c.consumed = b.consumed ++ new ∧ ∀ t ∈ new, ∀ id, t.reader = some id →
    b.reader = some id ∨ ∃ m', m = some m' ∧ (b.msgs m').identifier = id

theorem TakenBy.takenFor (h : TakenBy b c) (m : Option MsgRef) : TakenFor b c m := by
  obtain ⟨new, he, hnew⟩ := h
  refine ⟨new, he, fun t ht id hid => ?_⟩
  rcases hnew t ht with h | h
  · exact .inl (h.symm.trans hid)
  · rw [h] at hid
    cases hid

theorem Routes.takenFor {r : Bool × PipeBridge δ} (h : Routes host b m r) : TakenFor b r.2 (some m) := by
  cases h with
  | prepared h => exact h.takenBy.takenFor _
  | written h =>
    obtain ⟨new, he, hnew⟩ := h.takenBy
    have hr : (b.prepare m).reader = b.reader := by
      have hid : ∀ m', ((b.prepare m).msgs m').identifier = (b.msgs m').identifier := fun m' =>
        (Account.sameMessage_update b.account m m' _).1
      unfold reader
      rw [show (b.prepare m).pending = b.pending from rfl]
      split <;> simp only [hid]
    refine ⟨new, he, fun t ht id hid => .inl ?_⟩
    rcases hnew t ht with h | h
    · exact hr.symm.trans (h.symm.trans hid)
    · rw [h] at hid
      cases hid
  | @served b' c hb h =>
    obtain ⟨new, he, hnew⟩ := h.takenBy
    obtain ⟨p, hacc, hp⟩ := hb.account
    refine ⟨new, by rw [← hb.consumed]; exact he, fun t ht id hid => .inr ⟨m, rfl, ?_⟩⟩
    have hr : b'.reader = some (b.msgs m).identifier := by
      rw [reader, show b'.pending = p from congrArg Account.pending hacc,
        show b'.msgs = b.msgs from congrArg Account.msgs hacc]
      rcases hp with ⟨rfl, -⟩ | ⟨rfl, -⟩
      · rfl
      · rfl
    rcases hnew t ht with h | h
    · exact Option.some.inj ((hr.symm.trans h.symm).trans hid)
    · rw [h] at hid
      cases hid
  | waits h hp => exact h.takenBy.takenFor _
  | dropped =>
    refine ⟨[], ?_, List.forall_mem_nil _⟩
    rw [List.append_nil]
    exact (b.dropPendingReadOf_kept _).2.1

end PipeBridge

namespace IoLoop

open PipeBridge

variable {δ : Type} {host : Host δ} {s : IoLoop δ} {i : LoopInput} {c : PipeBridge δ} {id : Nat}

theorem Handles.grows {b c : PipeBridge δ} (h : Handles s b c) : Grows b c := by
  obtain ⟨msgs, completed, rfl⟩ := h.same
  exact ⟨h.completed, List.prefix_rfl⟩

theorem StepBridge.grows (h : StepBridge host s i c) : Grows s.bridge c := by
  cases h with
  | call hn h hc => exact Grows.trans ⟨h.grows.completed, h.grows.dropped⟩ hc.grows
  | route hm h hc => exact Grows.trans ⟨h.grows.completed, h.grows.dropped⟩ hc.grows

theorem StepBridge.takenFor (h : StepBridge host s i c) : TakenFor s.bridge c s.dispatched := by
  cases h with
  | call hn h hc =>
    obtain ⟨msgs, completed, rfl⟩ := hc.same
    exact h.takenBy.takenFor _
  | route hm h hc =>
    obtain ⟨msgs, completed, he⟩ := hc.same
    rw [he, hm]
    exact h.takenFor

/-- Requests that are answered in this state. -/
def Closed (s : IoLoop δ) (id : Nat) : Prop := id ∈ s.bridge.account.closed

theorem Closed.of_grows {b : PipeBridge δ} (h : id ∈ b.account.closed) (hg : Grows b c) : id ∈ c.account.closed := by
  rcases Multiset.mem_add.mp h with h | h
  · exact Multiset.mem_add.mpr (.inl (hg.completed.map _ |>.subset h))
  · exact Multiset.mem_add.mpr (.inr (hg.dropped.subset h))

theorem Sound.not_held (h : s.Sound) (hid : s.Closed id) :
    ∀ m ∈ (s.desk s.hand).ledger.buffers, (s.bridge.msgs m).identifier ≠ id :=
  h.kept.balanced.not_mem_of_closed (requested_nodup h.kept.ids) hid

/-- A read that is answered takes no more input. -/
theorem step_consumed (h : s.Sound) (hid : s.Closed id) :
    (s.step host i).bridge.consumed.filter (fun t => t.reader = some id) =
      s.bridge.consumed.filter (fun t => t.reader = some id) := by
  obtain ⟨new, he, hnew⟩ := (step_bridge host s i h.kept.serving).takenFor
  rw [he, List.filter_append, List.append_right_eq_self, List.filter_eq_nil_iff]
  intro t ht hr
  have hno := h.not_held hid
  rcases hnew t ht id (of_decide_eq_true hr) with h' | ⟨m, hm, h'⟩
  · unfold reader at h'
    split at h'
    · rename_i m hp
      refine hno m (Desk.mem_buffers.mpr (.inl (.inl (.inr ?_)))) (Option.some.inj h')
      rw [Desk.pending, desk, account, hp]
      rfl
    · rename_i m hp
      refine hno m (Desk.mem_buffers.mpr (.inl (.inl (.inr ?_)))) (Option.some.inj h')
      rw [Desk.pending, desk, account, hp]
      rfl
    · cases h'
  · refine hno m (Desk.mem_buffers.mpr ?_) h'
    rcases dispatched_held hm with hm | hm
    · exact .inr hm
    · exact .inl (.inr hm)

theorem run_answered (h : s.Sound) (hid : s.Closed id) (inputs : List LoopInput)
    (hon : ∀ r ∈ (s.run host inputs).bridge.rounds, r.Honest host) :
    (s.run host inputs).Closed id ∧ Grows s.bridge (s.run host inputs).bridge ∧
      (s.run host inputs).bridge.consumed.filter (fun t => t.reader = some id) =
        s.bridge.consumed.filter (fun t => t.reader = some id) := by
  induction inputs generalizing s with
  | nil => exact ⟨hid, .refl _, rfl⟩
  | cons i inputs ih =>
    have hstep := step_bridge host s i h.kept.serving
    have hmoves := run_moves host (hstep.moves.serving h.kept.serving) inputs
    have h' := sound_step h i fun r hr => hon r (hmoves.rounds.subset hr)
    obtain ⟨h1, h2, h3⟩ := ih h' (Closed.of_grows hid hstep.grows) hon
    exact ⟨h1, hstep.grows.trans h2, h3.trans (step_consumed h hid)⟩

/-- No request is answered twice. -/
theorem Sound.closed_count (h : s.Sound) (id : Nat) :
    (s.bridge.completed.map Completion.identifier).count id + s.bridge.dropped.count id ≤ 1 := by
  have hn : (s.desk s.hand).ledger.places.Nodup := by
    rw [h.kept.balanced.places]
    exact requested_nodup h.kept.ids
  have hc := Multiset.nodup_iff_count_le_one.mp (Multiset.nodup_add.mp hn).1 id
  rw [show (s.desk s.hand).ledger.closed = ((s.bridge.completed.map Completion.identifier : List Nat) : Multiset Nat) +
    (s.bridge.dropped : Multiset Nat) from rfl, Multiset.count_add, Multiset.coe_count, Multiset.coe_count] at hc
  exact hc

/-- What is completed later, when the request is answered already. -/
theorem completed_filter {t : IoLoop δ} (ht : t.Sound) (hg : s.bridge.completed <+: t.bridge.completed)
    (hid : id ∈ s.bridge.completed.map Completion.identifier ∨ id ∈ t.bridge.dropped) :
    t.bridge.completed.filter (fun completion => completion.identifier = id) =
      s.bridge.completed.filter (fun completion => completion.identifier = id) := by
  have hcount := ht.closed_count id
  obtain ⟨new, he⟩ := hg
  rw [← he, List.map_append, List.count_append] at hcount
  rw [← he, List.filter_append, List.append_right_eq_self, List.filter_eq_nil_iff]
  intro completion hmem hc
  have hnew : 0 < (new.map Completion.identifier).count id :=
    List.count_pos_iff.mpr (of_decide_eq_true hc ▸ List.mem_map_of_mem hmem)
  rcases hid with h | h
  · have := List.count_pos_iff.mpr h
    omega
  · have := List.count_pos_iff.mpr h
    omega

/-- Once the DISCONNECT of a process is routed, and none of its reads is deferred
then, no read that it had made is dispatched or completed, or takes input. -/
theorem disconnect_ends_reads (host : Host δ) (d : δ) (inputMode : Nat) (bytes : List UInt8)
    (inputs : List LoopInput) (i : LoopInput)
    (inputs' : List LoopInput)
    (hon : ∀ r ∈ (run host (initial d inputMode bytes) (inputs ++ i :: inputs')).bridge.rounds, r.Honest host) :
    let s := run host (initial d inputMode bytes) inputs
    let t := run host (initial d inputMode bytes) (inputs ++ i :: inputs')
    s.pc = .route → (s.bridge.msgs s.cur).request = .disconnect →
    (∀ m, s.deferredMsg = some m → (s.bridge.msgs m).process ≠ (s.bridge.msgs s.cur).process) →
    ∀ r ∈ s.received, r.request.isRead = true → r.process = (s.bridge.msgs s.cur).process →
      (∀ m, t.dispatched = some m → (t.bridge.msgs m).identifier ≠ r.identifier) ∧
        t.bridge.completed.filter (fun completion => completion.identifier = r.identifier) =
          s.bridge.completed.filter (fun completion => completion.identifier = r.identifier) ∧
        t.bridge.consumed.filter (fun taken => taken.reader = some r.identifier) =
          s.bridge.consumed.filter (fun taken => taken.reader = some r.identifier) := by
  intro s t hpc hreq hdeferred r hr hread hprocess
  have ht : t = (s.step host i).run host inputs' := run_append _ _ _
  rw [show run host (initial d inputMode bytes) (inputs ++ i :: inputs') = t from rfl, ht] at hon
  rw [ht]
  have hserving : s.bridge.serving = none := (run_moves host rfl inputs).serving rfl
  have hstep := step_bridge host s i hserving
  have hmoves := run_moves host (hstep.moves.serving hserving) inputs'
  have hs : Sound s := (sound_initial d inputMode bytes).run inputs fun r hr =>
    hon r (hmoves.rounds.subset (hstep.moves.rounds.subset hr))
  have hs' : Sound (s.step host i) := sound_step hs i fun r hr => hon r (hmoves.rounds.subset hr)
  -- the DISCONNECT is dispatched, and withdraws the pending read
  have hm : s.dispatched = some s.cur := by
    have hw : mayWaitForInput (s.bridge.msgs s.cur) = false := by rw [mayWaitForInput, hreq]
    rw [dispatched, hpc]
    dsimp only
    rw [if_neg]
    rw [hreq, hw]
    rintro (h | h | ⟨-, h⟩) <;> cases h
  have honm : (s.seeing i).onMessage host s.cur =
      (true, ((s.seeing i).dropPendingReadOf (s.bridge.msgs s.cur).process).prepare s.cur) := by
    rw [onMessage, show ((s.seeing i).msgs s.cur).request = .disconnect from hreq]
    rfl
  have hbridge : (s.step host i).bridge.consumed = s.bridge.consumed ∧
      (s.step host i).bridge.dropped = ((s.seeing i).dropPendingReadOf (s.bridge.msgs s.cur).process).dropped := by
    generalize (s.step host i).bridge = c at hstep
    cases hstep with
    | call hn => rw [hn] at hm; cases hm
    | route hm' h hc =>
      cases hm.symm.trans hm'
      obtain ⟨msgs, completed, he⟩ := hc.same
      rw [he, honm]
      exact ⟨((s.seeing i).dropPendingReadOf_kept _).2.1, rfl⟩
  have hid : r.identifier ∈ s.bridge.completed.map Completion.identifier ∨
      r.identifier ∈ (s.step host i).bridge.dropped := by
    have hmem : r.identifier ∈ (s.desk s.hand).ledger.places := by
      rw [hs.kept.balanced.places]
      refine Multiset.mem_coe.mpr (List.mem_map_of_mem (List.mem_filter.mpr ⟨hr, ?_⟩))
      cases hreq : r.request <;> rw [hreq] at hread <;> first | rfl | cases hread
    rcases Multiset.mem_add.mp hmem with h | h
    · rcases Multiset.mem_add.mp h with h | h
      · exact .inl h
      · exact .inr (hstep.grows.dropped.subset h)
    · obtain ⟨m, hbuf, hmid⟩ := Multiset.mem_map.mp h
      obtain ⟨r', hr', h1, h2, h3⟩ := hs.kept.holds m hbuf
      cases received_eq hs.kept.ids hr' hr (h1.trans hmid)
      rcases Desk.mem_buffers.mp hbuf with ((h | h) | h) | h
      · rw [show (s.desk s.hand).prevDone = none from hs.submitted (by rw [hpc]; rfl)] at h
        cases h
      · have hprocess' : ((s.seeing i).msgs m).process = (s.bridge.msgs s.cur).process := h2.symm.trans hprocess
        have hpend : (s.seeing i).pending.request? = some m := h
        right
        rw [hbridge.2, dropPendingReadOf]
        simp only [hpend]
        rw [if_neg (not_not.mpr hprocess')]
        exact List.mem_append_right _ (List.mem_singleton.mpr hmid.symm)
      · exact absurd (h2.symm.trans hprocess) (hdeferred m h)
      · have hcur : s.cur = m := by
          rw [show (s.desk s.hand).hand = s.hand from rfl, hand, hpc] at h
          dsimp only at h
          rw [hreq] at h
          exact Option.some.inj h
        rw [← hcur] at h3
        rw [show r.request = .disconnect from h3.trans hreq] at hread
        cases hread
  have hclosed : (s.step host i).Closed r.identifier := by
    rcases hid with h | h
    · exact Multiset.mem_add.mpr (.inl ((hstep.grows.completed.map _).subset h))
    · exact Multiset.mem_add.mpr (.inr h)
  obtain ⟨hclosed', hgrows, hconsumed⟩ := run_answered hs' hclosed inputs' hon
  have hst : Sound ((s.step host i).run host inputs') := hs'.run inputs' hon
  refine ⟨fun m hm => hst.not_held hclosed' m (Desk.mem_buffers.mpr ?_), ?_, by rw [hconsumed, hbridge.1]⟩
  · rcases dispatched_held hm with h | h
    · exact .inr h
    · exact .inl (.inr h)
  · refine completed_filter hst (hstep.grows.completed.trans hgrows.completed) (hid.imp_right fun h => ?_)
    exact hgrows.dropped.subset h

/-- A DISCONNECT with the process's read pending. -/
theorem disconnect_ends_reads_pending :
    let inputs : List LoopInput := [{}, {}, { readIo := .message 1 (.rawRead 16) }, {}, {}, {},
      { readIo := .message 1 .disconnect }]
    let s := run asciiHost (initial () 0 [0x0D]) inputs
    let inputs' : List LoopInput := [{}, { seen := [{ count := 1 }, { count := 1 }] }]
    let t := run asciiHost (initial () 0 [0x0D]) (inputs ++ {} :: inputs')
    s.bridge.pending = .rawRead 0 ∧ s.bridge.completed = [] ∧
      t.bridge.completed.filter (fun completion => completion.identifier = 1) = [] := by
  intro inputs s inputs' t
  refine ⟨by decide, by decide, ?_⟩
  have h := disconnect_ends_reads asciiHost () 0 [0x0D] inputs {} inputs'
    (by decide) (by decide) (by decide) (by decide)
  exact (h _ (List.mem_cons_self ..) (by decide) (by decide)).2.1.trans (by decide)

/-- Process 1 has one raw read pending and another deferred. After its DISCONNECT the
deferred read is dispatched, takes the line that is typed, and is completed. -/
theorem disconnect_replays_deferred :
    let inputs : List LoopInput := [{}, {}, { readIo := .message 1 (.rawRead 16) }, {}, {}, {},
      { readIo := .message 1 (.rawRead 16) }, {}, {}, {}, { readIo := .message 1 .disconnect }]
    let s := run asciiHost (initial () 0 [0x0D]) inputs
    let t := (s.step asciiHost {}).step asciiHost { seen := [{ count := 1 }] }
    s.pc = .route ∧ (s.bridge.msgs s.cur).request = .disconnect ∧ (s.bridge.msgs s.cur).process = 1 ∧
      (s.received.getD 1 {}).process = 1 ∧ (s.received.getD 1 {}).identifier = 2 ∧
      (s.step asciiHost {}).dispatched = some 1 ∧ ((s.step asciiHost {}).bridge.msgs 1).identifier = 2 ∧
      s.bridge.completed = [] ∧ t.bridge.completed.map Completion.identifier = [2] ∧
      s.bridge.consumed = [] ∧ t.bridge.consumed.map Taken.reader = [some 2] := by
  decide

end IoLoop

end Corehost
