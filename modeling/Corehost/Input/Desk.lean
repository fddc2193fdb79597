import Corehost.Lib.Ledger
import Corehost.Input.Serve

/-!
# The buffers of the I/O loop

A `Desk` is the part of the I/O loop that says where its requests are: the
bridge's account, and the buffers that the loop itself keeps. `Desk.Kept` says
that the ledger of the desk is balanced and that each buffer holds what its role
asks for. Every step of the loop is made of a few entries:

* `Kept.settle`, `Kept.answer`, `Kept.wait`: the calls into the bridge;
* `Kept.complete`, `Kept.receive`: READ_IO and `complete_io`;
* `Kept.park`, `Kept.defer`: the message moves to another pointer of the loop.
-/

namespace Corehost

/-- The requests of the I/O loop. `hand` is the buffer whose message has been
received, and is neither answered nor deferred. -/
structure Desk where
  account : Account
  prevDone : Option MsgRef
  pendingMsg : Option MsgRef
  deferred : Option MsgRef
  hand : Option MsgRef
  received : List IoMsg

namespace Account

/-- `complete_io(server, m->complete)`. -/
def completeIo (a : Account) (m : MsgRef) : Account :=
  { a with completed := a.completed ++ (a.msgs m).complete.toList }

/-- The message in a buffer is replaced. -/
def setMsg (a : Account) (m : MsgRef) (msg : IoMsg) : Account := { a with msgs := Function.update a.msgs m msg }

/-- The completion in a buffer is that of its message. -/
def Prepared (a : Account) (m : MsgRef) : Prop :=
  ∃ completion, (a.msgs m).complete = some completion ∧ completion.identifier = (a.msgs m).identifier

/-- The requests that are answered: those that are completed, and the reads of processes that have left. -/
def closed (a : Account) : Multiset Nat := (a.completed.map Completion.identifier : List Nat) + (a.dropped : Multiset Nat)

/-- The same message, up to its completion. -/
def SameMessage (a a' : Account) (m : MsgRef) : Prop :=
  (a'.msgs m).identifier = (a.msgs m).identifier ∧ (a'.msgs m).process = (a.msgs m).process ∧
    (a'.msgs m).request = (a.msgs m).request

theorem sameMessage_update (a : Account) (m m' : MsgRef) (completion : Option Completion) :
    SameMessage a (a.setMsg m { a.msgs m with complete := completion }) m' := by
  by_cases hm : m' = m
  · subst hm
    simp [SameMessage, setMsg]
  · simp [SameMessage, setMsg, Function.update_of_ne hm]

theorem sameMessage_setMsg (a : Account) {m m' : MsgRef} (hm : m' ≠ m) (msg : IoMsg) :
    SameMessage a (a.setMsg m msg) m' := by
  simp [SameMessage, setMsg, Function.update_of_ne hm]

theorem SameMessage.refl (a : Account) (m : MsgRef) : SameMessage a a m := ⟨rfl, rfl, rfl⟩

theorem SameMessage.trans {a a' a'' : Account} {m : MsgRef} (h : SameMessage a a' m) (h' : SameMessage a' a'' m) :
    SameMessage a a'' m :=
  ⟨h'.1.trans h.1, h'.2.1.trans h.2.1, h'.2.2.trans h.2.2⟩

theorem Settles.sameMessage {a a' : Account} (h : Settles a a') (m : MsgRef) : SameMessage a a' m := by
  cases h with
  | same => exact .refl a m
  | @done m' completion hm hid => exact sameMessage_update a m' m _

theorem SameMessage.rawReadCapacity_eq {a a' : Account} {m : MsgRef} (h : SameMessage a a' m) :
    (a'.msgs m).rawReadCapacity = (a.msgs m).rawReadCapacity := by
  rw [IoMsg.rawReadCapacity, IoMsg.rawReadCapacity, h.2.2]

theorem Prepared.congr {a a' : Account} {m : MsgRef} (h : a.Prepared m) (hm : a'.msgs m = a.msgs m) : a'.Prepared m := by
  rw [Prepared, hm]
  exact h

/-- The answer to the message in `m` is in its buffer, or the bridge is pending on it. -/
theorem Answers.outcome {a a' : Account} {m : MsgRef} {done : Bool} (h : Answers a m done a')
    (hne : a.pending.request? ≠ some m) : done = true ∧ a'.Prepared m ∧ a'.pending.request? ≠ some m ∨
      done = false ∧ a'.pending.request? = some m ∧ a'.msgs m = a.msgs m := by
  cases h with
  | @done a' completion hs hid =>
    refine .inl ⟨rfl, ⟨completion, by simp [prepare], by simp [prepare, hid, hs.identifier_eq]⟩, ?_⟩
    rcases hs.pending_eq with h | h
    · exact fun hm => hne (h ▸ hm)
    · rw [prepare, h]
      exact (Option.some_ne_none m).symm
  | @dropped m' completion hm hreq hprocess hid =>
    exact .inl ⟨rfl, ⟨completion, by simp [prepare], by simp [prepare, drop, hid]⟩, (Option.some_ne_none m).symm⟩
  | waits hp hm => exact .inr ⟨rfl, hm, rfl⟩

end Account

/-- The buffer behind a pointer. -/
def placed (place : Option MsgRef) : Multiset MsgRef := place.elim 0 fun m => {m}

@[simp] theorem placed_none : placed none = 0 := rfl
@[simp] theorem placed_some (m : MsgRef) : placed (some m) = {m} := rfl
@[simp] theorem mem_placed {m : MsgRef} {place : Option MsgRef} : m ∈ placed place ↔ place = some m := by
  cases place <;> simp [eq_comm]

namespace Desk

open Account

variable {d d' : Desk} {m m' : MsgRef} {a : Account}

def pending (d : Desk) : Option MsgRef := d.account.pending.request?

/-- The buffers in use, but for the one in hand. -/
def parked (d : Desk) : Multiset MsgRef := placed d.prevDone + placed d.pending + placed d.deferred

/-- The requests that were received. -/
def requested (received : List IoMsg) : Multiset Nat :=
  ((received.filter fun r => r.request ≠ .empty).map IoMsg.identifier : List Nat)

def ledger (d : Desk) : Ledger MsgRef Nat where
  holder m := (d.account.msgs m).identifier
  buffers := d.parked + placed d.hand
  closed := d.account.closed
  received := requested d.received

/-- The message in a buffer is one that was received. -/
def Holds (d : Desk) (m : MsgRef) : Prop :=
  ∃ r ∈ d.received, r.identifier = (d.account.msgs m).identifier ∧ r.process = (d.account.msgs m).process ∧
    r.request = (d.account.msgs m).request

structure Kept (d : Desk) : Prop where
  serving : d.account.serving = none
  ids : d.received.map IoMsg.identifier = List.range' 1 d.received.length
  balanced : d.ledger.Balanced
  pendingMsg : ∀ m, d.pending = some m → d.pendingMsg = some m
  prepared : ∀ m, d.prevDone = some m → d.account.Prepared m
  holds : ∀ m ∈ d.ledger.buffers, d.Holds m
  dropped : ∀ id ∈ d.account.dropped, ∃ r ∈ d.received, r.identifier = id ∧
    ∃ r' ∈ d.received, r'.request = .disconnect ∧ r'.process = r.process

theorem mem_buffers : m ∈ d.ledger.buffers ↔
    ((d.prevDone = some m ∨ d.pending = some m) ∨ d.deferred = some m) ∨ d.hand = some m := by
  simp [ledger, parked]

theorem Holds.congr {d' : Desk} (h : d.Holds m) (hm : SameMessage d.account d'.account m) (hr : d'.received = d.received) :
    d'.Holds m := by
  obtain ⟨r, hmem, h1, h2, h3⟩ := h
  obtain ⟨i1, i2, i3⟩ := hm
  exact ⟨r, hr ▸ hmem, h1.trans i1.symm, h2.trans i2.symm, h3.trans i3.symm⟩

/-- The pointers of the loop are different. -/
theorem Kept.distinct (h : d.Kept) : (∀ m, d.pending = some m → d.prevDone ≠ some m) ∧
    (∀ m, d.deferred = some m → d.prevDone ≠ some m ∧ d.pending ≠ some m) ∧
    ∀ m, d.hand = some m → d.prevDone ≠ some m ∧ d.pending ≠ some m := by
  have hn := h.balanced.nodup
  refine ⟨fun m hm hd => ?_, fun m hm => ⟨fun hd => ?_, fun hd => ?_⟩, fun m hm => ⟨fun hd => ?_, fun hd => ?_⟩⟩ <;>
    simp [ledger, parked, hm, hd, Multiset.nodup_add] at hn

/-! ## Entries -/

/-- The buffers change their role. -/
theorem Kept.keep (h : d.Kept) (hs : d'.account.serving = none) (hr : d'.received = d.received)
    (hb : d'.ledger.buffers = d.ledger.buffers) (hsame : ∀ m, SameMessage d.account d'.account m)
    (hc : d'.account.closed = d.account.closed) (hdropped : d'.account.dropped = d.account.dropped)
    (hp : ∀ m, d'.pending = some m → d'.pendingMsg = some m)
    (hprep : ∀ m, d'.prevDone = some m → d'.account.Prepared m) : d'.Kept := by
  refine ⟨hs, by rw [hr]; exact h.ids, h.balanced.keep hb (fun m _ => (hsame m).1) hc ?_, hp, hprep, ?_, ?_⟩
  · exact congrArg requested hr
  · intro m hm
    exact (h.holds m (hb ▸ hm)).congr (hsame m) hr
  · rw [hdropped, hr]
    exact h.dropped

/-- The request in `m` is answered. -/
theorem Kept.close (h : d.Kept) (hs : d'.account.serving = none) (hr : d'.received = d.received)
    (hb : d.ledger.buffers = d'.ledger.buffers + {m}) (hsame : ∀ m, SameMessage d.account d'.account m)
    (hc : d'.account.closed = d.account.closed + {(d.account.msgs m).identifier})
    (hdropped : ∀ id ∈ d'.account.dropped, ∃ r ∈ d.received, r.identifier = id ∧
      ∃ r' ∈ d.received, r'.request = .disconnect ∧ r'.process = r.process)
    (hp : ∀ m, d'.pending = some m → d'.pendingMsg = some m)
    (hprep : ∀ m, d'.prevDone = some m → d'.account.Prepared m) : d'.Kept := by
  refine ⟨hs, by rw [hr]; exact h.ids, h.balanced.close hb (fun m _ => (hsame m).1) hc ?_, hp, hprep, ?_, ?_⟩
  · exact congrArg requested hr
  · intro m' hm
    refine (h.holds m' ?_).congr (hsame m') hr
    rw [hb]
    exact Multiset.mem_add.mpr (.inl hm)
  · rw [hr]
    exact hdropped

/-- The pending request is completed, or nothing happens. -/
theorem Kept.settle (h : d.Kept) (hs : Settles d.account a) : Kept { d with account := a } := by
  cases hs with
  | same => exact h
  | @done m completion hm hid =>
    have hp : d.pending = some m := hm
    refine h.close (m := m) h.serving rfl ?_ (fun m' => sameMessage_update _ m m' _) ?_ h.dropped (fun _ hm => absurd hm (Option.some_ne_none _).symm) ?_
    · simp only [ledger, parked, hp, placed_some]
      simp only [pending, finish, Pending.request?, placed_none]
      abel
    · simp only [closed, finish, if_neg (show d.account.serving ≠ some m by rw [h.serving]; exact (Option.some_ne_none m).symm)]
      rw [List.map_append, ← Multiset.coe_add, List.map_singleton, Multiset.coe_singleton, hid]
      abel
    · intro m' hd
      have hne : m' ≠ m := by
        rintro rfl
        exact h.distinct.1 m' hp hd
      exact (h.prepared m' hd).congr (Function.update_of_ne hne _ _)

/-- A handler prepares the completion of its message. -/
theorem Kept.prepare (h : d.Kept) (completion : Completion) (hm : d.prevDone ≠ some m) :
    Kept { d with account := d.account.prepare m completion } := by
  refine h.keep h.serving rfl rfl (fun m' => sameMessage_update _ m m' _) rfl rfl h.pendingMsg ?_
  intro m' hd
  have hne : m' ≠ m := by
    rintro rfl
    exact hm hd
  exact (h.prepared m' hd).congr (Function.update_of_ne hne _ _)

/-- The pending request is forgotten, since its process has left. -/
theorem Kept.drop (h : d.Kept) (hm : d.pending = some m) (hm' : d.Holds m') (hreq : (d.account.msgs m').request = .disconnect)
    (hprocess : (d.account.msgs m).process = (d.account.msgs m').process) :
    Kept { d with account := d.account.drop m } := by
  refine h.close (m := m) h.serving rfl ?_ (fun m' => ⟨rfl, rfl, rfl⟩) ?_ ?_ nofun h.prepared
  · simp only [ledger, parked, hm, placed_some]
    simp only [pending, Account.drop, Pending.request?, placed_none]
    abel
  · simp only [closed, Account.drop]
    rw [← Multiset.coe_add, Multiset.coe_singleton]
    abel
  · intro id hid
    rcases List.mem_append.mp hid with hid | hid
    · exact h.dropped id hid
    · obtain ⟨r, hr, h1, h2, h3⟩ := h.holds m (mem_buffers.mpr (.inl (.inl (.inr hm))))
      obtain ⟨r', hr', h1', h2', h3'⟩ := hm'
      rw [List.mem_singleton] at hid
      exact ⟨r, hr, h1.trans hid.symm, r', hr', h3'.trans hreq, (h2'.trans hprocess.symm).trans h2.symm⟩

/-- A message that the loop holds is answered. -/
theorem Kept.answer (h : d.Kept) (hm : d.hand = some m ∨ d.deferred = some m) {done : Bool}
    (ha : Answers d.account m done a) (hdone : done = true) : Kept { d with account := a } ∧ a.Prepared m := by
  have hne : d.prevDone ≠ some m ∧ d.pending ≠ some m := by
    rcases hm with hm | hm
    · exact h.distinct.2.2 m hm
    · exact h.distinct.2.1 m hm
  refine ⟨?_, ?_⟩
  · cases ha with
    | done hs hid => exact (h.settle hs).prepare _ hne.1
    | dropped hm' hreq hprocess hid =>
      have hmem : m ∈ d.ledger.buffers := by
        rw [mem_buffers]
        tauto
      exact Kept.prepare (h.drop hm' (h.holds m hmem) hreq hprocess) _ hne.1
    | waits => cases hdone
  · rcases ha.outcome hne.2 with ⟨-, hprep, -⟩ | ⟨hd, -⟩
    · exact hprep
    · rw [hdone] at hd
      cases hd

/-! ## READ_IO -/

theorem closed_completeIo (h : a.Prepared m) : (a.completeIo m).closed = a.closed + {(a.msgs m).identifier} := by
  obtain ⟨completion, hc, hid⟩ := h
  simp only [closed, completeIo, hc, Option.toList_some]
  rw [List.map_append, ← Multiset.coe_add, List.map_singleton, Multiset.coe_singleton, hid]
  abel

/-- The message in hand is completed. -/
theorem Kept.completeHand (h : d.Kept) (hm : d.hand = some m) (hp : d.account.Prepared m) :
    Kept { d with account := d.account.completeIo m, hand := none } := by
  refine h.close (m := m) h.serving rfl ?_ (fun m' => ⟨rfl, rfl, rfl⟩) (closed_completeIo hp) h.dropped h.pendingMsg
    h.prepared
  simp [ledger, parked, pending, completeIo, hm]

/-- The deferred message is completed. -/
theorem Kept.completeDeferred (h : d.Kept) (hm : d.deferred = some m) (hp : d.account.Prepared m) :
    Kept { d with account := d.account.completeIo m, deferred := none } := by
  refine h.close (m := m) h.serving rfl ?_ (fun m' => ⟨rfl, rfl, rfl⟩) (closed_completeIo hp) h.dropped h.pendingMsg
    h.prepared
  simp only [ledger, parked, pending, completeIo, hm, placed_some, placed_none]
  abel

/-- READ_IO submits the completion of the last message. -/
theorem Kept.submit (h : d.Kept) (hm : d.prevDone = some m) :
    Kept { d with account := d.account.completeIo m, prevDone := none } := by
  refine h.close (m := m) h.serving rfl ?_ (fun m' => ⟨rfl, rfl, rfl⟩) (closed_completeIo (h.prepared m hm)) h.dropped
    h.pendingMsg nofun
  simp only [ledger, parked, pending, completeIo, hm, placed_some, placed_none]
  abel

/-- The buffer for the next message is cleared. -/
theorem Kept.clear (h : d.Kept) (hm : m ∉ d.ledger.buffers) (msg : IoMsg) :
    Kept { d with account := d.account.setMsg m msg } := by
  have hne : ∀ m' ∈ d.ledger.buffers, m' ≠ m := by
    rintro m' hm' rfl
    exact hm hm'
  refine ⟨h.serving, h.ids, h.balanced.keep rfl ?_ rfl rfl, h.pendingMsg, ?_, ?_, h.dropped⟩
  · intro m' hm'
    exact (sameMessage_setMsg d.account (hne m' hm') msg).1
  · intro m' hm'
    refine (h.prepared m' hm').congr (Function.update_of_ne (hne m' ?_) _ _)
    rw [mem_buffers]
    tauto
  · intro m' hm'
    exact (h.holds m' hm').congr (sameMessage_setMsg d.account (hne m' hm') msg) rfl

/-- READ_IO returns the next message. -/
theorem Kept.receive (h : d.Kept) (hm : m ∉ d.ledger.buffers) (hhand : d.hand = none) (msg : IoMsg)
    (hid : msg.identifier = d.received.length + 1) :
    Kept { d with
      account := d.account.setMsg m msg
      hand := if msg.request = .empty then none else some m
      received := d.received ++ [msg] } := by
  have hne : ∀ m' ∈ d.ledger.buffers, m' ≠ m := by
    rintro m' hm' rfl
    exact hm hm'
  have hholds : ∀ m' ∈ d.ledger.buffers, Holds { d with
      account := d.account.setMsg m msg
      hand := if msg.request = .empty then none else some m
      received := d.received ++ [msg] } m' := by
    intro m' hm'
    obtain ⟨r, hr, h1, h2, h3⟩ := h.holds m' hm'
    obtain ⟨i1, i2, i3⟩ := sameMessage_setMsg d.account (hne m' hm') msg
    exact ⟨r, List.mem_append_left _ hr, h1.trans i1.symm, h2.trans i2.symm, h3.trans i3.symm⟩
  refine ⟨h.serving, ?_, ?_, h.pendingMsg, ?_, ?_, ?_⟩
  · rw [List.map_append, h.ids, List.length_append, List.length_singleton, List.range'_concat, List.map_singleton, hid]
    simp [Nat.add_comm]
  · by_cases hreq : msg.request = .empty
    · refine h.balanced.keep ?_ (fun m' hm' => (sameMessage_setMsg d.account (hne m' hm') msg).1) rfl ?_
      · simp only [ledger, hreq, if_true, hhand]
        rfl
      · simp [ledger, requested, hreq]
    · refine h.balanced.receive hm ?_ (fun m' hm' => (sameMessage_setMsg d.account (hne m' hm') msg).1) rfl ?_
      · simp only [ledger, hreq, if_false, hhand, placed_none, placed_some, add_zero]
        rfl
      · simp only [ledger, requested, setMsg, Function.update_self]
        rw [List.filter_append, List.filter_singleton, decide_eq_true hreq, cond_true, List.map_append, ← Multiset.coe_add]
        rfl
  · intro m' hm'
    refine (h.prepared m' hm').congr (Function.update_of_ne (hne m' ?_) _ _)
    rw [mem_buffers]
    tauto
  · intro m' hm'
    by_cases hmm : m' = m
    · subst hmm
      exact ⟨msg, List.mem_append_right _ (List.mem_singleton_self _), by simp [setMsg], by simp [setMsg], by simp [setMsg]⟩
    · refine hholds m' ?_
      rw [mem_buffers] at hm' ⊢
      rcases hm' with hm' | hm'
      · exact .inl hm'
      · dsimp only at hm'
        split at hm'
        · cases hm'
        · exact absurd (Option.some.inj hm').symm hmm
  · intro id hid
    obtain ⟨r, hr, h1, r', hr', h2⟩ := h.dropped id hid
    exact ⟨r, List.mem_append_left _ hr, h1, r', List.mem_append_left _ hr', h2⟩

/-! ## The loop -/

/-- The message in hand is answered, and READ_IO will submit the completion. -/
theorem Kept.park (h : d.Kept) (hm : d.hand = some m) (hprev : d.prevDone = none) (hp : d.account.Prepared m) :
    Kept { d with prevDone := some m, hand := none } := by
  refine h.keep h.serving rfl ?_ (fun m' => ⟨rfl, rfl, rfl⟩) rfl rfl h.pendingMsg ?_
  · simp only [ledger, parked, pending, hm, hprev, placed_some, placed_none]
    abel
  · intro m' hm'
    cases hm'
    exact hp

/-- The message in hand is deferred. -/
theorem Kept.defer (h : d.Kept) (hm : d.hand = some m) (hd : d.deferred = none) :
    Kept { d with deferred := some m, hand := none } := by
  refine h.keep h.serving rfl ?_ (fun m' => ⟨rfl, rfl, rfl⟩) rfl rfl h.pendingMsg h.prepared
  simp only [ledger, parked, pending, hm, hd, placed_some, placed_none]
  abel

/-- The bridge keeps the message in hand. -/
theorem Kept.waitHand (h : d.Kept) (hm : d.hand = some m) {done : Bool} (ha : Answers d.account m done a)
    (hdone : done = false) : Kept { d with account := a, pendingMsg := some m, hand := none } := by
  cases ha with
  | @waits p hp hmp =>
    have hn : d.pending = none := by rw [pending, hp]; rfl
    refine h.keep h.serving rfl ?_ (fun m' => ⟨rfl, rfl, rfl⟩) rfl rfl ?_ h.prepared
    · simp only [ledger, parked, hm, hn, placed_some, placed_none]
      simp only [pending, hmp, placed_some]
      abel
    · intro m' hm'
      exact hmp.symm.trans hm'
  | done => cases hdone
  | dropped => cases hdone

/-- The bridge keeps the deferred message. -/
theorem Kept.waitDeferred (h : d.Kept) (hm : d.deferred = some m) {done : Bool} (ha : Answers d.account m done a)
    (hdone : done = false) : Kept { d with account := a, pendingMsg := some m, deferred := none } := by
  cases ha with
  | @waits p hp hmp =>
    have hn : d.pending = none := by rw [pending, hp]; rfl
    refine h.keep h.serving rfl ?_ (fun m' => ⟨rfl, rfl, rfl⟩) rfl rfl ?_ h.prepared
    · simp only [ledger, parked, hm, hn, placed_some, placed_none]
      simp only [pending, hmp, placed_some]
      abel
    · intro m' hm'
      exact hmp.symm.trans hm'
  | done => cases hdone
  | dropped => cases hdone

/-- The loop forgets the pending message once the bridge has. -/
theorem Kept.forget (h : d.Kept) (hp : d.pending = none) : Kept { d with pendingMsg := none } := by
  refine h.keep h.serving rfl rfl (fun m' => ⟨rfl, rfl, rfl⟩) rfl rfl ?_ h.prepared
  intro m hm
  exact absurd (hp.symm.trans hm) nofun

end Desk

end Corehost
