import Corehost.Input.Chunk

/-!
# Calls into the bridge

`Call` is what the functions of the bridge can do while they go through terminal
input: they settle the pending request or leave it alone, and pass the bytes
on. Each of them is shown to be one.
-/

namespace Corehost

namespace Round

variable {δ : Type}

/-- The first end in the chunk. -/
def firstEnd (host : Host δ) (r : Round δ) (stops : LineEnd → Bool) : Option (LineEnd × List UInt8) :=
  Corehost.firstEnd host r.inputMode r.processControlZ stops ⟨r.utf8Decoder, r.inputParser⟩ r.chunk

/-- The chunk does not end between a CR that ends a line and an LF that is out of
reach, and initial data contain no line end. -/
structure KeepsPair (host : Host δ) (r : Round δ) : Prop where
  initial : r.initial = true → r.firstEnd host (fun _ => true) = none
  split : r.firstEnd host (LineEnd.stops r.pending.kind) = some (.carriageReturn, []) →
    PipeBridge.SafeSplit r.queuedVtInput r.vtIn

instance (host : Host δ) (r : Round δ) : Decidable (r.KeepsPair host) :=
  decidable_of_iff ((r.initial = true → r.firstEnd host (fun _ => true) = none) ∧
      (r.firstEnd host (LineEnd.stops r.pending.kind) = some (.carriageReturn, []) →
        PipeBridge.SafeSplit r.queuedVtInput r.vtIn))
    ⟨fun ⟨h1, h2⟩ => ⟨h1, h2⟩, fun h => ⟨h.initial, h.split⟩⟩

end Round

namespace PipeBridge

open Account

variable {δ : Type} {host : Host δ} {b b' c d : PipeBridge δ} {m : MsgRef} {chunk : List UInt8}

/-- The bytes that went to a raw read are those in `_readbuf`, which has room for them. -/
def RawOk (b : PipeBridge δ) : Prop :=
  ∀ m, b.pending = .rawRead m → credited (b.msgs m).identifier b = b.readbuf ∧
    b.readbuf.length ≤ (b.msgs m).rawReadCapacity

structure Call (host : Host δ) (b c : PipeBridge δ) : Prop where
  settles : Settles b.account c.account
  takenBy : TakenBy b c
  rounds : b.rounds <+: c.rounds
  eof : b.vtEof = true → c.vtEof = true
  controlZ : b.ControlZ → c.ControlZ
  delivers : b.ControlZ → (∀ r ∈ c.rounds, r.KeepsPair host) →
    c.stream [] = b.stream [] ∧ (Paired b [] → Paired c [])
  rawOk : b.RawOk → c.RawOk
  raw : b.RawOk → ∀ m, b.pending = .rawRead m → c.pending = .none →
    ∃ completion, (c.msgs m).complete = some completion ∧
      RawData (credited (b.msgs m).identifier c) (b.msgs m).rawReadCapacity completion

theorem TakenBy.credited_none {id : Nat} (h : TakenBy b c) (hr : b.reader = none) : credited id c = credited id b := by
  obtain ⟨new, he, hnew⟩ := h
  have hnone : new.filter (fun t => t.reader = some id) = [] := by
    refine List.filter_eq_nil_iff.mpr fun t ht => ?_
    rcases hnew t ht with h | h <;> simp [h, hr]
  rw [credited, credited, he, List.filter_append, hnone, List.append_nil]

theorem Call.trans (h : Call host b c) (h' : Call host c d) : Call host b d := by
  refine ⟨h.settles.trans h'.settles, h.takenBy.trans h'.takenBy h.settles, h.rounds.trans h'.rounds, h'.eof ∘ h.eof,
    h'.controlZ ∘ h.controlZ, ?_, h'.rawOk ∘ h.rawOk, ?_⟩
  · intro hz hd
    have h1 := h.delivers hz fun r hr => hd r (h'.rounds.subset hr)
    have h2 := h'.delivers (h.controlZ hz) hd
    exact ⟨h2.1.trans h1.1, h2.2 ∘ h1.2⟩
  · intro hraw m hp hd
    have hs := h.settles
    generalize ha : c.account = a at hs
    cases hs with
    | same =>
      have hp' : c.pending = .rawRead m := (congrArg Account.pending ha).trans hp
      have hm' : c.msgs = b.msgs := congrArg Account.msgs ha
      have h2 := h'.raw (h.rawOk hraw) m hp' hd
      rw [hm'] at h2
      exact h2
    | done hm hid =>
      have hp' : c.pending = .none := congrArg Account.pending ha
      have hacc : d.account = c.account := h'.settles.of_none hp'
      have hmsgs : d.msgs = c.msgs := congrArg Account.msgs hacc
      rw [hmsgs, h'.takenBy.credited_none (by rw [reader, hp'])]
      exact h.raw hraw m hp hp'

/-! ## Reading and completing -/

/-- `chunk` has been read, and nothing else happened. -/
structure Reads (b : PipeBridge δ) (chunk : List UInt8) (c : PipeBridge δ) : Prop where
  account : c.account = b.account
  consumed : c.consumed = b.consumed
  rounds : c.rounds = b.rounds
  eof : b.vtEof = true → c.vtEof = true
  controlZ : c.processControlZ = b.processControlZ
  readbuf : c.readbuf = b.readbuf ++ chunk
  room : chunk.length ≤ b.readLimit - b.readbuf.length
  ahead : c.ahead chunk = b.ahead []

theorem Reads.call (h : Reads b [] c) : Call host b c := by
  have hp : c.pending = b.pending := congrArg Account.pending h.account
  have hm : c.msgs = b.msgs := congrArg Account.msgs h.account
  have hread : c.reading = b.reading := by rw [reading, reading, hp]
  refine ⟨by rw [h.account]; exact .same, ⟨[], by rw [h.consumed, List.append_nil], List.forall_mem_nil _⟩, by rw [h.rounds], h.eof,
    ?_, ?_, ?_, ?_⟩
  · intro hz hr
    rw [h.controlZ]
    exact hz (hread ▸ hr)
  · refine fun _ _ => ⟨by rw [stream, stream, h.ahead, h.consumed], fun hpair => ⟨?_, ?_⟩⟩
    · rw [h.consumed]
      exact hpair.chain
    · rw [h.consumed, h.ahead]
      exact hpair.last
  · intro hraw m hpm
    rw [hm, credited_same h.consumed, h.readbuf, List.append_nil]
    exact hraw m (hp ▸ hpm)
  · intro hraw m hpm hn
    rw [hp, hpm] at hn
    cases hn

theorem Call.refl (b : PipeBridge δ) : Call host b b :=
  Reads.call ⟨rfl, rfl, rfl, id, rfl, (List.append_nil _).symm, Nat.zero_le _, rfl⟩

theorem Emits.call (h : Emits b c) : Call host b c := by
  refine ⟨h.settles, h.same.takenBy, by rw [h.same.rounds], fun he => h.same.vtEof.trans he, fun hz => (h.controlZ hz).2,
    fun _ _ => ⟨h.same.stream_eq [], h.same.paired⟩, ?_, ?_⟩
  · intro hraw m hp
    have hs := h.same
    cases h with
    | edit => exact hraw m hp
    | complete => rw [finish_pending] at hp; cases hp
  · intro hraw m hp hn
    have hread : b.reading = some m := by rw [reading, hp]
    have hacc := h.account_eq (by rw [hread]; exact Option.some_ne_none m)
    rw [show c.pending = b.pending from congrArg Account.pending hacc, hp] at hn
    cases hn

/-- The pending request is completed outside a chunk: the pipe is closed or `_readbuf` is full. -/
theorem call_completePending : Call host b b.completePending := by
  cases hm : b.reading with
  | none => exact (completePending_not_reading hm).1.call
  | some m =>
    obtain ⟨status, data, line, hdata, -, he⟩ := completePending_reading hm
    have hdone : Settles b.account (b.finish m status data).account := by
      rw [account_finish]
      exact .done (reading_request hm) rfl
    rw [he]
    rw [finish_eq] at hdone ⊢
    refine ⟨hdone, ⟨[], (List.append_nil _).symm, nofun⟩, List.prefix_rfl, id, fun _ _ => rfl,
      fun _ _ => ⟨rfl, fun hp => ⟨hp.chain, hp.last⟩⟩, nofun, ?_⟩
    intro hraw m' hp hn
    have hm' : m' = m := by
      rw [reading, hp] at hm
      exact Option.some.inj hm
    rw [hm']
    refine ⟨b.completion m status data, by simp, ?_⟩
    cases hdata with
    | alerted => exact .inl rfl
    | raw h =>
      obtain ⟨hc, hfit⟩ := hraw m h
      rw [RawData, ← hc]
      exact .inr ⟨rfl, .inl (hc.symm ▸ hfit)⟩
    | console h =>
      rw [hm', h] at hp
      cases hp

/-- A chunk that has been read is processed. -/
theorem Reads.processNewVtInput (h : Reads b chunk c) : Call host b (c.processNewVtInput host b.readbuf.length) := by
  have hchunk : c.readbuf.drop b.readbuf.length = chunk := by rw [h.readbuf, List.drop_left]
  unfold PipeBridge.processNewVtInput processInput
  rw [hchunk]
  have hrun := processBytes_run host (startRound { c with lineFound := false } b.readbuf.length chunk false)
    b.readbuf.length chunk
  generalize hc' : startRound { c with lineFound := false } b.readbuf.length chunk false = c' at hrun ⊢
  generalize processBytes host c' b.readbuf.length chunk = d at hrun ⊢
  have hacc : c'.account = b.account := by rw [← hc']; exact h.account
  have hcons : c'.consumed = b.consumed := by rw [← hc']; exact h.consumed
  have hread : c'.reading = b.reading := by
    rw [reading, reading, show c'.pending = b.pending from congrArg Account.pending hacc]
  have hz : b.ControlZ → c'.ControlZ := by
    intro hz hr
    rw [← hc']
    exact h.controlZ.trans (hz (hread ▸ hr))
  obtain ⟨hrounds, heof, hkz⟩ := hrun.kept
  have hround : c'.rounds = b.rounds ++ [round { c with lineFound := false } b.readbuf.length chunk false] := by
    rw [← hc', ← h.rounds]
    rfl
  have hraw' : b.RawOk → ∀ m, b.pending = .rawRead m →
      (d.account = b.account ∧ credited (b.msgs m).identifier d = d.readbuf ∧
          d.readbuf.length ≤ (b.msgs m).rawReadCapacity) ∨
        (d.pending = .none ∧ ∃ completion, (d.msgs m).complete = some completion ∧
          RawData (credited (b.msgs m).identifier d) (b.msgs m).rawReadCapacity completion) := by
    intro hraw m hp
    have hmsgs : c'.msgs = b.msgs := congrArg Account.msgs hacc
    have hp' : c'.pending = .rawRead m := (congrArg Account.pending hacc).trans hp
    have hbuf : c'.readbuf = b.readbuf ++ chunk := by
      rw [← hc']
      exact h.readbuf
    have hfit : c'.readbuf.length ≤ (b.msgs m).rawReadCapacity := by
      have hroom := h.room
      rw [readLimit, hp] at hroom
      have := (hraw m hp).2
      rw [hbuf, List.length_append]
      dsimp only at hroom
      omega
    have hrun' := hrun.raw hp' (by rw [hmsgs, credited_same hcons, (hraw m hp).1, hbuf])
      (by rw [hbuf, List.length_append]) (by rw [hmsgs]; exact hfit)
    rw [hmsgs, hacc] at hrun'
    rcases hrun' with ⟨h1, h2, h3⟩ | h
    · exact .inl ⟨h1, h3, h2 ▸ hfit⟩
    · exact .inr h
  refine ⟨hacc ▸ hrun.settles, ?_, ?_, ?_, hkz ∘ hz, ?_, ?_, ?_⟩
  · obtain ⟨new, he, hnew⟩ := hrun.takenBy
    refine ⟨new, by rw [he, hcons], ?_⟩
    rw [show b.reader = c'.reader from congrArg Account.reader hacc.symm]
    exact hnew
  · rw [hrounds, hround]
    exact List.prefix_append _ _
  · intro he
    rw [heof, ← hc']
    exact h.eof he
  · intro hzb hd
    have hkeeps : (round { c with lineFound := false } b.readbuf.length chunk false).KeepsPair host :=
      hd _ (by rw [hrounds, hround]; exact List.mem_append_right _ (List.mem_singleton_self _))
    have hsafe : chunkEnd host c' (LineEnd.stops c'.pendingKind) chunk = some (.carriageReturn, []) →
        SafeSplit c'.queuedVtInput c'.vtIn := by
      rw [← hc']
      exact hkeeps.split
    have hahead : c'.ahead chunk = b.ahead [] := by rw [← hc']; exact h.ahead
    obtain ⟨hs, hp⟩ := hrun.delivers (hz hzb) hsafe
    refine ⟨by rw [hs, stream, stream, hahead, hcons], fun hpair => hp ⟨?_, ?_⟩⟩
    · rw [hcons]
      exact hpair.chain
    · rw [hcons, hahead]
      exact hpair.last
  · intro hraw m hp
    have hpb : b.pending = .rawRead m := by
      rcases hrun.settles.pending_eq with h | h
      · rw [← show c'.pending = b.pending from congrArg Account.pending hacc]
        exact h.symm.trans hp
      · rw [show d.pending = .none from h] at hp
        cases hp
    rcases hraw' hraw m hpb with ⟨hd, hc⟩ | ⟨hn, -⟩
    · rw [show d.msgs = b.msgs from congrArg Account.msgs hd]
      exact hc
    · rw [hn] at hp
      cases hp
  · intro hraw m hp hn
    rcases hraw' hraw m hp with ⟨hd, -⟩ | ⟨-, hc⟩
    · rw [show d.pending = b.pending from congrArg Account.pending hd, hp] at hn
      cases hn
    · exact hc

/-! ## From the pipe -/

/-- The pipe gives its first bytes. -/
theorem readAvailable_cases (v : VtIn) (room : Nat) :
    (∃ chunk, (v.readAvailable room).1 = .bytes chunk ∧ v.bytes = chunk ++ (v.readAvailable room).2.bytes ∧
        chunk.length ≤ room) ∨
      ((v.readAvailable room).1 = .empty ∨ (v.readAvailable room).1 = .eof) ∧
        (v.readAvailable room).2.bytes = v.bytes := by
  unfold VtIn.readAvailable
  generalize hn' : min room (min v.current.count v.bytes.length) = n
  by_cases hn : n = 0
  · dsimp only
    rw [if_pos hn]
    right
    split
    · exact ⟨.inr rfl, rfl⟩
    · exact ⟨.inl rfl, rfl⟩
  · dsimp only
    rw [if_neg hn]
    refine .inl ⟨_, rfl, (List.take_append_drop n v.bytes).symm, ?_⟩
    exact (List.length_take_le _ _).trans (hn' ▸ Nat.min_le_left _ _)

/-- Changes that no input goes through. -/
theorem reads_quiet (hacc : c.account = b.account) (hcons : c.consumed = b.consumed) (hrounds : c.rounds = b.rounds)
    (heof : b.vtEof = true → c.vtEof = true) (hz : c.processControlZ = b.processControlZ) (hbuf : c.readbuf = b.readbuf)
    (hq : c.queuedVtInput = b.queuedVtInput) (hv : c.vtIn.bytes = b.vtIn.bytes) : Reads b [] c :=
  ⟨hacc, hcons, hrounds, heof, hz, by rw [hbuf, List.append_nil], Nat.zero_le _, by rw [ahead, ahead, hq, hv]⟩

theorem call_quiet (hacc : c.account = b.account) (hcons : c.consumed = b.consumed) (hrounds : c.rounds = b.rounds)
    (heof : b.vtEof = true → c.vtEof = true) (hz : c.processControlZ = b.processControlZ) (hbuf : c.readbuf = b.readbuf)
    (hq : c.queuedVtInput = b.queuedVtInput) (hv : c.vtIn.bytes = b.vtIn.bytes) : Call host b c :=
  (reads_quiet hacc hcons hrounds heof hz hbuf hq hv).call

theorem call_vtEof : Call host b { b with vtEof := true } :=
  call_quiet rfl rfl rfl (fun _ => rfl) rfl rfl rfl rfl

theorem call_vtIn {vtIn : VtIn} (h : vtIn.bytes = b.vtIn.bytes) : Call host b { b with vtIn } :=
  call_quiet rfl rfl rfl id rfl rfl rfl h

theorem readAvailableVtInput_reads (b : PipeBridge δ) :
    ∃ chunk, Reads b chunk b.readAvailableVtInput.2 ∧ (b.readAvailableVtInput.1 ≠ .bytes → chunk = []) := by
  unfold readAvailableVtInput
  dsimp only
  split
  · exact ⟨[], ⟨rfl, rfl, rfl, id, rfl, (List.append_nil _).symm, Nat.zero_le _, rfl⟩, fun _ => rfl⟩
  · split
    · refine ⟨_, ⟨rfl, rfl, rfl, id, rfl, rfl, List.length_take_le _ _, ?_⟩, fun h => absurd rfl h⟩
      rw [ahead, ahead, ← List.append_assoc, consumeQueuedVtInput, List.take_append_drop]
      rfl
    · rename_i hq
      have hq' : b.queuedVtInput = [] := by simpa using hq
      have hcases := readAvailable_cases b.vtIn (b.readLimit - b.readbuf.length)
      generalize b.vtIn.readAvailable (b.readLimit - b.readbuf.length) = r at hcases ⊢
      obtain ⟨status, vtIn⟩ := r
      rcases hcases with ⟨chunk, rfl, hb, hlen⟩ | ⟨rfl | rfl, hb⟩
      · dsimp only at hb
        exact ⟨chunk, ⟨rfl, rfl, rfl, id, rfl, rfl, hlen, by simp [ahead, hb, hq']⟩, fun h => absurd rfl h⟩
      · exact ⟨[], reads_quiet rfl rfl rfl id rfl rfl rfl hb, fun _ => rfl⟩
      · exact ⟨[], reads_quiet rfl rfl rfl id rfl rfl rfl hb, fun _ => rfl⟩

/-- The rounds of `accumulate_from_pipe`. -/
theorem call_accumulateLoop (n : Nat) : Call host b (accumulateLoop host n b).2 := by
  induction n generalizing b with
  | zero => exact .refl b
  | succ n ih =>
    obtain ⟨chunk, hread, hchunk⟩ := b.readAvailableVtInput_reads
    rw [accumulateLoop]
    generalize b.readAvailableVtInput = r at hread hchunk
    obtain ⟨status, c⟩ := r
    cases status with
    | bytes =>
      have hcall : Call host b (c.processNewVtInput host b.readbuf.length) := hread.processNewVtInput
      dsimp only
      split
      · exact hcall
      · exact hcall.trans ih
    | empty =>
      rw [hchunk nofun] at hread
      exact hread.call
    | eof =>
      rw [hchunk nofun] at hread
      exact (hread.call.trans call_vtEof).trans call_completePending
    | full =>
      rw [hchunk nofun] at hread
      exact hread.call.trans call_completePending

theorem call_accumulateFromPipe : Call host b (b.accumulateFromPipe host).2 := call_accumulateLoop _

theorem call_drainAvailableVtInput : Call host b (b.drainAvailableVtInput host).2 := by
  obtain ⟨chunk, hread, hchunk⟩ := b.readAvailableVtInput_reads
  rw [drainAvailableVtInput]
  generalize b.readAvailableVtInput = r at hread hchunk
  obtain ⟨status, c⟩ := r
  cases status with
  | bytes => exact hread.processNewVtInput
  | empty =>
    rw [hchunk nofun] at hread
    exact hread.call
  | eof =>
    rw [hchunk nofun] at hread
    exact (hread.call.trans call_vtEof).trans call_completePending
  | full =>
    rw [hchunk nofun] at hread
    exact hread.call.trans call_completePending

theorem peekAvailable_bytes (v : VtIn) : v.peekAvailable.2.bytes = v.bytes := rfl

theorem call_queueAvailableVtInput : Call host b b.queueAvailableVtInput.2 := by
  unfold queueAvailableVtInput
  have hcases := readAvailable_cases b.vtIn bodySize
  generalize b.vtIn.readAvailable bodySize = r at hcases ⊢
  obtain ⟨status, vtIn⟩ := r
  rcases hcases with ⟨chunk, rfl, hb, -⟩ | ⟨rfl | rfl, hb⟩
  · have hread : Reads b [] { b with
        resizeSyncOutstanding := b.resizeSyncOutstanding - b.vtIn.current.answered
        queuedVtInput := b.queuedVtInput ++ chunk, vtIn } :=
      ⟨rfl, rfl, rfl, id, rfl, (List.append_nil _).symm, Nat.zero_le _, by simp [ahead, hb]⟩
    exact hread.call
  · exact call_quiet rfl rfl rfl id rfl rfl rfl hb
  · exact call_quiet rfl rfl rfl (fun _ => rfl) rfl rfl rfl hb

theorem call_pollSignalClosed (signal : Signal) : Call host b (b.pollSignalClosed signal).2 := by
  unfold pollSignalClosed
  refine Emits.call (.trans ?_ (emits_sync _))
  split
  · split
    · exact emits_emitRecord _
    · exact .refl b
  · exact .refl b

theorem call_onIdle (signal : Signal) : Call host b (b.onIdle host signal) := by
  unfold onIdle
  split
  · exact .refl b
  · have hpoll : Call host b (b.pollSignalClosed signal).2 := call_pollSignalClosed signal
    refine hpoll.trans ?_
    generalize b.pollSignalClosed signal = r
    obtain ⟨closed, c⟩ := r
    dsimp only
    split
    · exact call_vtEof.trans call_completePending
    · have hpeek : ∀ vtIn, c.vtIn.peekAvailable.2 = vtIn → Call host c { c with vtIn } := fun vtIn h =>
        call_vtIn (h ▸ peekAvailable_bytes _)
      generalize c.vtIn.peekAvailable = r at hpeek ⊢
      obtain ⟨n, vtIn⟩ := r
      have hv : Call host c { c with vtIn } := hpeek vtIn rfl
      split
      · rename_i h
        cases h
        exact (hv.trans call_vtEof).trans call_completePending
      · rename_i h
        cases h
        exact hv
      · rename_i h
        cases h
        refine hv.trans ?_
        split
        · exact call_drainAvailableVtInput
        · exact call_accumulateLoop _

theorem call_waitForPendingVtInput (signal : Signal) : Call host b (b.waitForPendingVtInput host signal) := by
  unfold waitForPendingVtInput
  split
  · exact .refl b
  · have hdrain : Call host b (b.drainAvailableVtInput host).2 := call_drainAvailableVtInput
    generalize b.drainAvailableVtInput host = r at hdrain ⊢
    obtain ⟨changed, c⟩ := r
    dsimp only
    split
    · exact hdrain
    · have hpoll : Call host c (c.pollSignalClosed signal).2 := call_pollSignalClosed signal
      generalize c.pollSignalClosed signal = r at hpoll ⊢
      obtain ⟨closed, d⟩ := r
      refine (hdrain.trans hpoll).trans ?_
      dsimp only
      split
      · exact call_vtEof.trans call_completePending
      · exact call_drainAvailableVtInput

/-! ## Input records -/

/-- `_readbuf` is cleared while no raw read is pending. -/
theorem call_readbuf (hp : ∀ m, b.pending ≠ .rawRead m) (readbuf : List UInt8) : Call host b { b with readbuf } :=
  ⟨.same, ⟨[], (List.append_nil _).symm, nofun⟩, List.prefix_rfl, id, id, fun _ _ => ⟨rfl, fun h => ⟨h.chain, h.last⟩⟩,
    fun _ m h => absurd h (hp m), fun _ m h => absurd h (hp m)⟩

theorem credited_takeKey (id : Nat) (key : KeyEvent) : credited id (b.takeItem (.key key)) = credited id b := by
  by_cases hr : b.reader = some id
  · simp [credited, takeItem, hr, Taken.byte?]
  · simp [credited, takeItem, hr]

theorem call_takeKey (key : KeyEvent) : Call host b (b.takeItem (.key key)) := by
  have hitems : byteItems (b.takeItem (.key key)).consumed = byteItems b.consumed := by
    simp [byteItems, takeItem, Taken.byte?]
  refine ⟨.same, ⟨_, rfl, ?_⟩, List.prefix_rfl, id, id, ?_, ?_, ?_⟩
  · intro t ht
    rw [List.mem_singleton.mp ht]
    exact .inl rfl
  · refine fun _ _ => ⟨by simp [stream, ahead, takeItem, Taken.byte?], fun h => ⟨?_, ?_⟩⟩
    · rw [hitems]
      exact h.chain
    · rw [hitems]
      exact h.last
  · intro hraw m hp
    rw [credited_takeKey]
    exact hraw m hp
  · intro hraw m hp hn
    rw [show b.pending = .none from hn] at hp
    cases hp

theorem call_editKeyEventForConsoleRead (key : KeyEvent) : Call host b (b.editKeyEventForConsoleRead key).2 := by
  by_cases h : key.keyDown = true ∧ key.virtualKeyCode = VK_RETURN
  · rw [editKeyEventForConsoleRead_enter h.1 h.2, editSubmitLine]
    have hfound : Call host b { b with lineFound := true } := call_quiet rfl rfl rfl id rfl rfl rfl rfl
    exact hfound.trans call_completePending
  · obtain ⟨line, he⟩ := editKeyEventForConsoleRead_other (b := b) h
    rw [he]
    exact (emits_line line).call

theorem call_consumeRecords (records : List InputRecord) : Call host b (b.consumeRecords records).2 := by
  induction records generalizing b with
  | nil => exact (emits_inp []).call
  | cons record records ih =>
    cases record with
    | key key =>
      have hinp : Call host b { b with inp := records } := (emits_inp records).call
      have hkey := (hinp.trans (call_takeKey key)).trans (call_editKeyEventForConsoleRead key)
      unfold consumeRecords
      split
      · exact (emits_inp _).call
      · dsimp only
        generalize editKeyEventForConsoleRead _ key = r at hkey ⊢
        obtain ⟨done, c⟩ := r
        cases done with
        | true => exact hkey
        | false => exact hkey.trans ih
    | windowBufferSize x y =>
      unfold consumeRecords
      split
      · exact (emits_inp _).call
      · exact ih
    | other eventType =>
      unfold consumeRecords
      split
      · exact (emits_inp _).call
      · exact ih

theorem call_onConsoleInputWritten : Call host b b.onConsoleInputWritten := by
  unfold onConsoleInputWritten
  split
  · exact emits_completePendingConsoleInput.call
  · exact call_consumeRecords _
  · exact .refl b

/-- The initial data of a ReadConsole. -/
theorem call_processInitialData (hp : b.pending = .consoleRead m) (initData : List UInt8) :
    Call host b (b.processInitialData host initData) := by
  unfold processInitialData processInput
  have hrun := processBytes_run host (startRound { b with readbuf := initData } 0 initData true) 0 initData
  have hread : (startRound { b with readbuf := initData } 0 initData true).reading ≠ none := by
    rw [show (startRound { b with readbuf := initData } 0 initData true).reading = b.reading from rfl, reading, hp]
    exact Option.some_ne_none m
  have hrounds : (startRound { b with readbuf := initData } 0 initData true).rounds =
      b.rounds ++ [round { b with readbuf := initData } 0 initData true] := rfl
  generalize hc' : startRound { b with readbuf := initData } 0 initData true = c' at hrun hread hrounds ⊢
  generalize processBytes host c' 0 initData = d at hrun ⊢
  obtain ⟨hkr, hke, hkz⟩ := hrun.kept
  have hsettles : Settles b.account d.account := by
    rw [show b.account = c'.account by rw [← hc']; rfl]
    exact hrun.settles
  have hraw : ∀ m, d.pending ≠ .rawRead m := by
    intro m' h
    rcases hsettles.pending_eq with he | he
    · rw [show d.account.pending = .rawRead m' from h, show b.account.pending = .consoleRead m from hp] at he
      cases he
    · rw [show d.account.pending = .rawRead m' from h] at he
      cases he
  refine ⟨hsettles, ⟨[], (List.append_nil _).symm, List.forall_mem_nil _⟩, ?_, ?_, ?_, ?_, fun _ m' h => absurd h (hraw m'), ?_⟩
  · show b.rounds <+: d.rounds
    rw [hkr, hrounds]
    exact List.prefix_append _ _
  · intro he
    refine hke.trans ?_
    rw [← hc']
    exact he
  · intro hz
    exact hkz (by rw [← hc']; exact hz)
  · intro hz hd
    have hkeeps : (round { b with readbuf := initData } 0 initData true).KeepsPair host := by
      refine hd _ ?_
      show _ ∈ d.rounds
      rw [hkr, hrounds]
      exact List.mem_append_right _ (List.mem_singleton_self _)
    have hnone : chunkEnd host c' (fun _ => true) initData = none := by
      rw [← hc']
      exact hkeeps.initial rfl
    obtain ⟨-, -, hq, hv⟩ := hrun.no_end hread hnone
    have hq' : d.queuedVtInput = b.queuedVtInput := by rw [hq, ← hc']; rfl
    have hv' : d.vtIn = b.vtIn := by rw [hv, ← hc']; rfl
    have hahead : ahead { d with consumed := b.consumed } [] = b.ahead [] := by
      rw [ahead, ahead, hq', hv']
    refine ⟨by rw [stream, stream, hahead], fun h => ⟨h.chain, ?_⟩⟩
    rw [hahead]
    exact h.last
  · intro hok m' h
    rw [hp] at h
    cases h

/-- The loop of `prepare_console_input_events`. -/
theorem call_prepareEventsLoop (n : Nat) (hp : b.pending = .none) : Call host b (prepareEventsLoop host n b) := by
  induction n generalizing b with
  | zero => exact .refl b
  | succ n ih =>
    rw [prepareEventsLoop]
    split
    · exact .refl b
    · have hbuf : Call host b { b with readbuf := [] } := call_readbuf (fun m => by rw [hp]; nofun) []
      generalize hc : ({ b with readbuf := [] } : PipeBridge δ) = c at hbuf ⊢
      have hcp : c.pending = .none := by rw [← hc]; exact hp
      refine hbuf.trans ?_
      dsimp only
      split
      · have hdrain : Call host c (c.drainAvailableVtInput host).2 := call_drainAvailableVtInput
        refine hdrain.trans (ih ?_)
        exact (congrArg Account.pending (hdrain.settles.of_none hcp)).trans hcp
      · have hpeek := peekAvailable_bytes c.vtIn
        generalize c.vtIn.peekAvailable = r at hpeek ⊢
        obtain ⟨k, vtIn⟩ := r
        have hv : Call host c { c with vtIn } := call_vtIn hpeek
        split
        · rename_i h
          cases h
          exact hv.trans call_vtEof
        · rename_i h
          cases h
          exact hv
        · rename_i h
          cases h
          have hqueue : Call host { c with vtIn } (queueAvailableVtInput { c with vtIn }).2 := call_queueAvailableVtInput
          generalize queueAvailableVtInput { c with vtIn } = r at hqueue ⊢
          obtain ⟨more, d⟩ := r
          refine (hv.trans hqueue).trans ?_
          dsimp only
          split
          · refine ih ?_
            exact (congrArg Account.pending ((hv.trans hqueue).settles.of_none hcp)).trans hcp
          · exact .refl d

theorem call_prepareConsoleInputEvents : Call host b (b.prepareConsoleInputEvents host) := by
  unfold prepareConsoleInputEvents
  split
  · exact .refl b
  · rename_i h
    exact call_prepareEventsLoop _ (by simpa [hasPending] using h)

end PipeBridge

end Corehost
