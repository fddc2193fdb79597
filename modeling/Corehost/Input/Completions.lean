import Corehost.Input.Desk
import Corehost.Input.Route

/-!
# Completions of raw reads

Which completions a call into the bridge adds (`Call.completions`,
`Routes.completions`), and that the completion of a raw read holds the bytes
that the read took (`RawDone`).
-/

namespace Corehost

namespace PipeBridge

open Account

variable {δ : Type} {host : Host δ} {b b' c : PipeBridge δ} {m m' : MsgRef}

/-- A completion that was handed to ConDrv, or is in one of the buffers. -/
def HasCompletion (b : PipeBridge δ) (completion : Completion) : Prop :=
  completion ∈ b.completed ∨ ∃ m, (b.msgs m).complete = some completion

theorem exists_setMsg {msg : IoMsg} {completion : Completion} (h : HasCompletion (b.setMsg m msg) completion) :
    HasCompletion b completion ∨ msg.complete = some completion := by
  rcases h with hmem | ⟨m', hm'⟩
  · exact .inl (.inl hmem)
  · have hm' : (Function.update b.msgs m msg m').complete = some completion := hm'
    by_cases hmm : m' = m
    · subst hmm
      rw [Function.update_self] at hm'
      exact .inr hm'
    · rw [Function.update_of_ne hmm] at hm'
      exact .inl (.inr ⟨m', hm'⟩)

theorem sameMessage_prepare (b : PipeBridge δ) (m m' : MsgRef) (status : Nat) (data : CompletionData) :
    SameMessage b.account (b.prepare m status data).account m' :=
  sameMessage_update b.account m m' _

theorem Routes.sameMessage {r : Bool × PipeBridge δ} (h : Routes host b m r) (m' : MsgRef) :
    SameMessage b.account r.2.account m' := by
  cases h with
  | prepared h => exact (h.settles.sameMessage m').trans (sameMessage_prepare _ m m' _ _)
  | written h => exact (sameMessage_prepare b m m' _ _).trans (h.settles.sameMessage m')
  | served hb h =>
    obtain ⟨p, hacc, -⟩ := hb.account
    have hs := h.settles.sameMessage m'
    rw [hacc] at hs
    exact hs
  | waits h => exact h.settles.sameMessage m'
  | dropped =>
    have hdrop : SameMessage b.account (b.dropPendingReadOf (b.msgs m).process).account m' := by
      unfold dropPendingReadOf
      split
      · exact .refl _ _
      · split <;> exact ⟨rfl, rfl, rfl⟩
    exact hdrop.trans (sameMessage_prepare _ m m' _ _)

/-- The completion of a raw read of `bytes`: the read was interrupted, or it got them all. -/
def RawDone (bytes : List UInt8) (capacity : Nat) (completion : Completion) : Prop :=
  completion.data = .empty ∧ bytes = [] ∨ RawData bytes capacity completion

/-- A raw read is pending as one. -/
def Kind (b : PipeBridge δ) : Prop :=
  ∀ m size, b.pending.request? = some m → (b.msgs m).request = .rawRead size → b.pending = .rawRead m

/-- The request in `m` was completed between `b` and `c`. -/
structure Completed (b c : PipeBridge δ) (m : MsgRef) (completion : Completion) : Prop where
  identifier : completion.identifier = (b.msgs m).identifier
  gone : c.pending.request? ≠ some m
  raw : ∀ size, (b.msgs m).request = .rawRead size →
    RawDone (credited (b.msgs m).identifier c) (b.msgs m).rawReadCapacity completion

theorem Call.completions {b c : PipeBridge δ} (h : Call host b c) (hraw : b.RawOk) (hkind : Kind b)
    {completion : Completion} (hex : HasCompletion c completion) :
    HasCompletion b completion ∨ ∃ m, b.pending.request? = some m ∧ Completed b c m completion := by
  have hs := h.settles
  have hcraw := h.raw hraw
  generalize ha : c.account = a at hs
  have hp : c.pending = a.pending := congrArg Account.pending ha
  have hm : c.msgs = a.msgs := congrArg Account.msgs ha
  have hcompleted : c.completed = a.completed := congrArg Account.completed ha
  rw [HasCompletion, hm, hcompleted] at hex
  cases hs with
  | same => exact .inl hex
  | @done m completion' hpend hid =>
    have hnew : completion = completion' → Completed b c m completion := by
      rintro rfl
      refine ⟨hid, by rw [hp]; nofun, fun size hreq => .inr ?_⟩
      obtain ⟨completion', hc, hdata⟩ := hcraw m (hkind m size hpend hreq) hp
      rw [hm] at hc
      have hself : (Function.update b.msgs m { b.msgs m with complete := some completion } m).complete = some completion' := hc
      rw [Function.update_self] at hself
      cases hself
      exact hdata
    rcases hex with hmem | ⟨m', hm'⟩
    · have hmem : completion ∈ if b.serving = some m then b.completed else b.completed ++ [completion'] := hmem
      split at hmem
      · exact .inl (.inl hmem)
      · rcases List.mem_append.mp hmem with hmem | hmem
        · exact .inl (.inl hmem)
        · exact .inr ⟨m, hpend, hnew (List.mem_singleton.mp hmem)⟩
    · have hm' : (Function.update b.msgs m { b.msgs m with complete := some completion' } m').complete = some completion := hm'
      by_cases hmm : m' = m
      · subst hmm
        rw [Function.update_self] at hm'
        exact .inr ⟨m', hpend, hnew (Option.some.inj hm').symm⟩
      · rw [Function.update_of_ne hmm] at hm'
        exact .inl (.inr ⟨m', hm'⟩)

/-- No input has gone to the message in `m`. -/
structure Unread (b : PipeBridge δ) (m : MsgRef) : Prop where
  consumed : ∀ t ∈ b.consumed, t.reader ≠ some (b.msgs m).identifier
  reader : b.reader ≠ some (b.msgs m).identifier
  pending : b.pending.request? ≠ some m

theorem Unread.credited {b c : PipeBridge δ} (h : Unread b m) (hc : TakenBy b c) :
    credited (b.msgs m).identifier c = [] := by
  obtain ⟨new, he, hnew⟩ := hc
  have hnone : c.consumed.filter (fun t => t.reader = some (b.msgs m).identifier) = [] := by
    refine List.filter_eq_nil_iff.mpr fun t ht hr => ?_
    have hr := of_decide_eq_true hr
    rw [he] at ht
    rcases List.mem_append.mp ht with ht | ht
    · exact h.consumed t ht hr
    · rcases hnew t ht with h' | h'
      · exact h.reader (h'.symm.trans hr)
      · rw [h'] at hr
        cases hr
  rw [PipeBridge.credited, hnone, List.filterMap_nil]

theorem RawOk.congr {b c : PipeBridge δ} (h : b.RawOk) (hp : c.pending = b.pending)
    (hm : ∀ m, b.pending.request? = some m → SameMessage b.account c.account m) (hcons : c.consumed = b.consumed)
    (hbuf : c.readbuf = b.readbuf) : c.RawOk := by
  intro m hpm
  have hpm' : b.pending = .rawRead m := hp.symm.trans hpm
  have hsame := hm m (by rw [hpm']; rfl)
  rw [show (c.msgs m).identifier = (b.msgs m).identifier from hsame.1, credited_same hcons, hbuf,
    show (c.msgs m).rawReadCapacity = _ from hsame.rawReadCapacity_eq]
  exact h m hpm'

theorem rawOk_prepare {b : PipeBridge δ} (h : b.RawOk) (m : MsgRef) (status : Nat) (data : CompletionData) :
    (b.prepare m status data).RawOk :=
  RawOk.congr h rfl (fun m' _ => sameMessage_prepare b m m' status data) rfl rfl

/-- The bridge before it looks for the input of the message in `m`. -/
theorem Serves.start {b b' : PipeBridge δ} (hb : Serves b m b') (hun : Unread b m) :
    b'.msgs = b.msgs ∧ b'.completed = b.completed ∧ b'.pending.request? = some m ∧ b'.RawOk ∧ Kind b' := by
  obtain ⟨p, hacc, hp⟩ := hb.account
  have hmsgs : b'.msgs = b.msgs := congrArg Account.msgs hacc
  have hpend : b'.pending = p := congrArg Account.pending hacc
  have hreq : b'.pending.request? = some m := by
    rw [hpend]
    rcases hp with ⟨rfl, -⟩ | ⟨rfl, -⟩ <;> rfl
  refine ⟨hmsgs, congrArg Account.completed hacc, hreq, ?_, ?_⟩
  · intro m' hm'
    have hmm : m = m' := by
      rw [hm'] at hreq
      exact (Option.some.inj hreq).symm
    subst hmm
    rw [hmsgs, credited_same hb.consumed, hb.readbuf]
    exact ⟨hun.credited ⟨[], (List.append_nil _).symm, nofun⟩, Nat.zero_le _⟩
  · intro m' size hm' hsize
    cases hreq.symm.trans hm'
    rw [hmsgs] at hsize
    rcases hp with ⟨rfl, -⟩ | ⟨rfl, r, hr⟩
    · exact hpend
    · rw [hr] at hsize
      cases hsize

theorem Routes.completions {b : PipeBridge δ} {r : Bool × PipeBridge δ} (h : Routes host b m r) (hraw : b.RawOk)
    (hkind : Kind b) (hun : Unread b m) (hgone : r.1 = true → r.2.pending.request? ≠ some m) {completion : Completion}
    (hex : HasCompletion r.2 completion) :
    HasCompletion b completion ∨ ∃ m', (b.pending.request? = some m' ∨ m' = m) ∧ Completed b r.2 m' completion := by
  cases h with
  | @prepared c h status data hdata =>
    rcases exists_setMsg hex with hex | hnew
    · rcases h.completions hraw hkind hex with hex | ⟨m', hm', hc⟩
      · exact .inl hex
      · exact .inr ⟨m', .inl hm', hc.identifier, hc.gone, hc.raw⟩
    · cases hnew
      have hid : (c.msgs m).identifier = (b.msgs m).identifier := (h.settles.sameMessage m).1
      refine .inr ⟨m, .inr rfl, hid, hgone rfl, fun size hreq => .inl ⟨hdata size hreq, ?_⟩⟩
      exact hun.credited h.takenBy
  | @written c h hnoraw =>
    have hkind' : Kind (b.prepare m) := fun m' size hm' hsize =>
      hkind m' size hm' ((sameMessage_prepare b m m' _ _).2.2.symm.trans hsize)
    rcases h.completions (rawOk_prepare hraw _ _ _) hkind' hex with hex | ⟨m', hm', hc⟩
    · rcases exists_setMsg hex with hex | hnew
      · exact .inl hex
      · cases hnew
        exact .inr ⟨m, .inr rfl, rfl, hgone rfl, fun size hreq => absurd hreq (hnoraw size)⟩
    · have hsame := sameMessage_prepare b m m' statusSuccess .empty
      refine .inr ⟨m', .inl hm', hc.identifier.trans hsame.1, hc.gone, fun size hreq => ?_⟩
      have hdone := hc.raw size (hsame.2.2.trans hreq)
      rw [show ((b.prepare m).msgs m').identifier = _ from hsame.1,
        show ((b.prepare m).msgs m').rawReadCapacity = _ from hsame.rawReadCapacity_eq] at hdone
      exact hdone
  | @served b' c hb h done =>
    obtain ⟨hmsgs, hcompleted, hreq, hraw', hkind'⟩ := hb.start hun
    rcases h.completions hraw' hkind' hex with hex | ⟨m', hm', hc⟩
    · left
      rw [HasCompletion, hmsgs, hcompleted] at hex
      exact hex
    · cases hreq.symm.trans hm'
      refine .inr ⟨m, .inr rfl, ?_, hc.gone, ?_⟩
      · rw [← hmsgs]
        exact hc.identifier
      · rw [← hmsgs]
        exact hc.raw
  | @waits c h hp hnoraw =>
    rcases h.completions hraw hkind hex with hex | ⟨m', hm', hc⟩
    · exact .inl hex
    · have hne : m ≠ m' := by
        rintro rfl
        exact hun.pending hm'
      exact .inr ⟨m', .inl hm', hc.identifier, fun hg => hne (Option.some.inj hg), hc.raw⟩
  | @dropped m' hp hreq hprocess =>
    rcases exists_setMsg hex with hex | hnew
    · left
      unfold dropPendingReadOf at hex
      simp only [hp] at hex
      split at hex
      · exact hex
      · exact hex
    · cases hnew
      have hid : ((b.dropPendingReadOf (b.msgs m).process).msgs m).identifier = (b.msgs m).identifier := by
        simp [dropPendingReadOf, hp, hprocess]
      exact .inr ⟨m, .inr rfl, hid, hgone rfl, fun size h => by rw [hreq] at h; cases h⟩

theorem Routes.rawOk {b : PipeBridge δ} {r : Bool × PipeBridge δ} (h : Routes host b m r) (hraw : b.RawOk)
    (hun : Unread b m) : r.2.RawOk := by
  cases h with
  | prepared h => exact rawOk_prepare (h.rawOk hraw) _ _ _
  | written h => exact h.rawOk (rawOk_prepare hraw _ _ _)
  | served hb h =>
    obtain ⟨-, -, -, hraw', -⟩ := hb.start hun
    exact h.rawOk hraw'
  | waits => exact fun m hm => by cases hm
  | dropped hp hreq hprocess =>
    refine rawOk_prepare ?_ _ _ _
    intro m' hm'
    simp [dropPendingReadOf, hp, hprocess] at hm'

theorem Call.kind {b c : PipeBridge δ} (h : Call host b c) (hkind : Kind b) : Kind c := by
  intro m' size hm' hsize
  rw [show (c.msgs m').request = _ from (h.settles.sameMessage m').2.2] at hsize
  rcases h.settles.pending_eq with hp | hp
  · rw [show c.pending = b.pending from hp] at hm' ⊢
    exact hkind m' size hm' hsize
  · rw [show c.pending = .none from hp] at hm'
    cases hm'

theorem Routes.kind {b : PipeBridge δ} {r : Bool × PipeBridge δ} (h : Routes host b m r) (hkind : Kind b)
    (hun : Unread b m) : Kind r.2 := by
  have hprep : ∀ {b : PipeBridge δ} status data, Kind b →
    Kind (b.prepare m status data) := fun status data hkind m' size hm' hsize =>
    hkind m' size hm' ((sameMessage_prepare _ m m' _ _).2.2.symm.trans hsize)
  cases h with
  | prepared h => exact hprep _ _ (h.kind hkind)
  | written h => exact h.kind (hprep _ _ hkind)
  | served hb h =>
    obtain ⟨-, -, -, -, hkind'⟩ := hb.start hun
    have hk := h.kind hkind'
    exact fun m' size hm' hsize => hk m' size hm' hsize
  | @waits c h hp hnoraw =>
    intro m' size hm' hsize
    cases hm'
    exact absurd ((h.settles.sameMessage m).2.2.symm.trans hsize) (hnoraw size)
  | dropped hp hreq hprocess =>
    have hn : (b.dropPendingReadOf (b.msgs m).process).pending = .none := by
      simp [dropPendingReadOf, hp, hprocess]
    refine hprep _ _ fun m' size hm' _ => ?_
    rw [hn] at hm'
    cases hm'

/-- The pending request stays so, or it is answered. -/
theorem closed_of_settles {a a' : Account} (h : Settles a a') (hs : a.serving = none) (hm : a.pending.request? = some m) :
    a'.pending.request? = some m ∨ (a.msgs m).identifier ∈ a'.closed := by
  cases h with
  | same => exact .inl hm
  | @done m' completion hm' hid =>
    cases hm.symm.trans hm'
    refine .inr (Multiset.mem_add.mpr (.inl (Multiset.mem_coe.mpr (List.mem_map.mpr ⟨completion, ?_, hid⟩))))
    have hc : (a.finish m completion).completed = a.completed ++ [completion] := by
      unfold Account.finish
      exact if_neg (by rw [hs]; nofun)
    rw [hc]
    exact List.mem_append_right _ (List.mem_singleton_self _)

theorem Routes.pending {b : PipeBridge δ} {r : Bool × PipeBridge δ} (h : Routes host b m r) (hs : b.serving = none)
    (hm : b.pending.request? = some m') :
    r.2.pending.request? = some m' ∨ (b.msgs m').identifier ∈ r.2.account.closed := by
  cases h with
  | prepared h => exact closed_of_settles h.settles hs hm
  | written h =>
    have hc := closed_of_settles h.settles hs hm
    rw [show ((b.prepare m).account.msgs m').identifier = _ from (sameMessage_prepare b m m' _ _).1] at hc
    exact hc
  | served hb h =>
    rw [hb.none] at hm
    cases hm
  | waits h hp =>
    rcases closed_of_settles h.settles hs hm with hc | hc
    · rw [account, hp] at hc
      cases hc
    · exact .inr hc
  | dropped hp hreq hprocess =>
    cases hm.symm.trans hp
    right
    refine Multiset.mem_add.mpr (.inr (Multiset.mem_coe.mpr ?_))
    show _ ∈ (b.dropPendingReadOf (b.msgs m).process).dropped
    simp [dropPendingReadOf, hp, hprocess]

end PipeBridge

end Corehost
