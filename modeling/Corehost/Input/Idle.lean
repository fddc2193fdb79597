import Corehost.Input.Accounts

/-!
# Terminal input between requests

What `on_idle` does with terminal input while no read is pending. It counts the
bytes in `_readbuf`, as a pending read does, and only the handlers of the read
requests start over, so that it stops when the buffer is full.

* `onIdle_progress`: with room in `_readbuf` the next byte is taken;
* `onIdle_full`: without it nothing is;
* `idle_progress_iff`: the states of the I/O loop in which `on_idle` goes on.
-/

namespace Corehost

namespace PipeBridge

variable {δ : Type} {host : Host δ} {b c : PipeBridge δ} {byte : UInt8} {pos : Nat} {rest : List UInt8}

/-- The next byte of the input has gone to the parser. -/
structure Progress (b c : PipeBridge δ) : Prop where
  fewer : (c.ahead []).length < (b.ahead []).length
  taken : ∃ t new, c.consumed = b.consumed ++ t :: new ∧ t.byte? = (b.ahead []).head?

/-! ## A chunk -/

theorem TakesLf.ahead_le {lineEnd : Option UInt8} {pos' : Nat} {rest' : List UInt8}
    (h : TakesLf b lineEnd pos rest c pos' rest') : (c.ahead rest').length ≤ (b.ahead rest).length := by
  cases h with
  | none hin => simp [ahead, hin]
  | chunk hrest => simp [ahead, hrest, take, takeItem]
  | pipe hrest hin => simp [ahead, hrest, hin, take, takeItem]

theorem taken_first {lineEnd : Option UInt8} {new : List Taken}
    (h : c.consumed = (b.take byte lineEnd).consumed ++ new) :
    ∃ t new, t.byte? = some byte ∧ c.consumed = b.consumed ++ t :: new :=
  ⟨{ reader := b.reader, item := .byte byte, mode := b.inputMode, lineEnd }, new, rfl, h.trans (List.append_assoc _ _ _)⟩

/-- The byte is taken, whatever it is. -/
theorem ByteStep.takes {r : Bool × PipeBridge δ} (h : ByteStep host b byte pos rest r) :
    (r.2.ahead (if r.1 then [] else rest)).length ≤ (b.ahead rest).length ∧
      ∃ t new, t.byte? = some byte ∧ r.2.consumed = b.consumed ++ t :: new := by
  cases h with
  | @go c found hstop hfound h =>
    refine ⟨Nat.le_of_eq ?_, ?_⟩
    · rw [if_neg Bool.false_ne_true, h.same.ahead_eq]
      rfl
    · have htaken : c.consumed = (b.take byte none).consumed ++ [] := h.same.consumed.trans (List.append_nil _).symm
      exact taken_first htaken
  | @ended c m e σ lineEnd pos' rest' status data hend hstop hcr hm hlf hdata inp line inputParser readAborted =>
    have hle : (c.ahead rest').length ≤ (b.ahead rest).length := hlf.ahead_le
    obtain ⟨new, hnew, -⟩ := hlf.takenBy
    rw [finish_eq]
    refine ⟨?_, taken_first hnew⟩
    simpa only [ahead, if_true, List.nil_append, List.append_assoc] using hle
  | @events b' c d e σ lineEnd pos' rest' readbuf inputParser hend hstop hcr hm h hlf h' hpending =>
    have hle : (c.ahead rest').length ≤ (b.ahead rest).length :=
      hlf.ahead_le.trans (Nat.le_of_eq (congrArg List.length (h.same.ahead_eq rest)))
    obtain ⟨new, hnew, -⟩ := hlf.takenBy
    rw [h.same.consumed] at hnew
    refine ⟨?_, taken_first (h'.same.consumed.trans hnew)⟩
    simp only [ahead, if_true, List.nil_append, List.append_assoc, h'.same.vtIn]
    simpa only [ahead, List.append_assoc] using hle

theorem ChunkRun.ahead_le {chunk : List UInt8} (h : ChunkRun host b pos chunk c) :
    (c.ahead []).length ≤ (b.ahead chunk).length := by
  induction h with
  | done => exact Nat.le_refl _
  | @stop b c pos byte rest h =>
    refine h.takes.1.trans ?_
    simp only [ahead, List.length_append, List.length_cons]
    omega
  | @go b c d pos byte rest h hrun ih =>
    refine ih.trans (h.takes.1.trans ?_)
    simp only [ahead, List.length_append, List.length_cons]
    omega

/-- The first byte of a chunk is taken. -/
theorem ChunkRun.takes (h : ChunkRun host b pos (byte :: rest) c) : (c.ahead []).length < (b.ahead (byte :: rest)).length ∧
    ∃ t new, t.byte? = some byte ∧ c.consumed = b.consumed ++ t :: new := by
  have hlt : (b.ahead rest).length < (b.ahead (byte :: rest)).length := by
    simp only [ahead, List.length_append, List.length_cons]
    omega
  cases h with
  | stop h => exact ⟨Nat.lt_of_le_of_lt h.takes.1 hlt, h.takes.2⟩
  | go h hrun =>
    obtain ⟨hle, t, new, ht, hnew⟩ := h.takes
    obtain ⟨more, hmore, -⟩ := hrun.takenBy
    refine ⟨Nat.lt_of_le_of_lt (hrun.ahead_le.trans hle) hlt, t, new ++ more, ht, ?_⟩
    rw [hmore, hnew, List.append_assoc, List.cons_append]

theorem Reads.progress {chunk : List UInt8} (h : Reads b chunk c) (hne : chunk ≠ []) :
    Progress b (c.processNewVtInput host b.readbuf.length) := by
  obtain ⟨byte, rest, rfl⟩ := List.exists_cons_of_ne_nil hne
  have hchunk : c.readbuf.drop b.readbuf.length = byte :: rest := by rw [h.readbuf, List.drop_left]
  unfold PipeBridge.processNewVtInput processInput
  rw [hchunk]
  obtain ⟨hlt, t, new, ht, hnew⟩ := (processBytes_run host
    (startRound { c with lineFound := false } b.readbuf.length (byte :: rest) false) b.readbuf.length (byte :: rest)).takes
  have hahead : c.ahead (byte :: rest) = b.ahead [] := h.ahead
  refine ⟨?_, t, new, ?_, ?_⟩
  · rw [← hahead]
    exact hlt
  · exact hnew.trans (congrArg (· ++ t :: new) h.consumed)
  · rw [ht, ← hahead]
    rfl

/-- Without a pending request key events leave none. -/
theorem Emits.pending_none (h : Emits b c) (hp : b.pending = .none) : c.pending = .none := by
  cases h with
  | edit => exact hp
  | complete => exact finish_pending _ _ _

/-- A chunk in which no line ends, without a pending request. -/
theorem ChunkRun.no_stop {chunk : List UInt8} (h : ChunkRun host b pos chunk c) (hp : b.pending = .none) (hz : b.ControlZ)
    (hnone : chunkEnd host b (LineEnd.stops b.pendingKind) chunk = none) :
    c.readbuf = b.readbuf ∧ c.pending = .none ∧ c.vtIn = b.vtIn := by
  induction h with
  | done => exact ⟨rfl, hp, rfl⟩
  | stop h =>
    cases h with
    | ended hend hstop => rw [chunkEnd_stop hend hstop] at hnone; cases hnone
    | events hend hstop => rw [chunkEnd_stop hend hstop] at hnone; cases hnone
  | @go b c d pos byte rest h hrun ih =>
    cases h with
    | go hstop hfound h =>
      obtain ⟨hcontrol, hcz⟩ := h.controlZ hz
      rw [chunkEnd_cons _ rest hstop h hcontrol, ← show LineEnd.stops c.pendingKind = LineEnd.stops b.pendingKind from
        h.stops_eq] at hnone
      obtain ⟨hbuf, hpending, hin⟩ := ih (h.pending_none hp) hcz hnone
      exact ⟨hbuf.trans h.same.readbuf, hpending, hin.trans h.same.vtIn⟩

/-! ## An idle round -/

/-- Bytes have arrived when `on_idle` looks, and are there when it reads: nobody else reads the pipe. -/
structure Available (v : VtIn) : Prop where
  bytes : v.bytes ≠ []
  seen : ∃ peeked read later, v.seen = peeked :: read :: later ∧ peeked.count ≠ 0 ∧ read.count ≠ 0

theorem pollSignalClosed_emits (signal : Signal) : Emits b (b.pollSignalClosed signal).2 := by
  unfold pollSignalClosed
  refine .trans ?_ (emits_sync _)
  split
  · split
    · exact emits_emitRecord _
    · exact .refl b
  · exact .refl b

/-- The state after `peek_vt_input`. -/
def peeked (b : PipeBridge δ) : PipeBridge δ := { b with vtIn := b.vtIn.peekAvailable.2 }

theorem Available.peekAvailable {v : VtIn} (h : Available v) : ∃ n, v.peekAvailable.1 = some (n + 1) := by
  obtain ⟨peeked, read, later, hseen, hcount, -⟩ := h.seen
  have hlen : v.bytes.length ≠ 0 := fun hz => h.bytes (List.length_eq_zero_iff.mp hz)
  have hn : min v.current.count v.bytes.length ≠ 0 := by
    rw [VtIn.current, hseen, List.headD_cons]
    omega
  obtain ⟨n, hn'⟩ := Nat.exists_eq_succ_of_ne_zero hn
  refine ⟨n, ?_⟩
  unfold VtIn.peekAvailable
  dsimp only
  rw [if_neg fun hz => hn hz.1, hn']

/-- With bytes in the pipe, `on_idle` drains it once the signals are polled. -/
theorem onIdle_drains (hp : b.pending = .none) (heof : b.vtEof = false) (hav : Available b.vtIn) {signal : Signal}
    (hsig : signal.closed = false) :
    ∃ c, Emits b c ∧ b.onIdle host signal = (c.peeked.drainAvailableVtInput host).2 := by
  have hpoll := pollSignalClosed_emits (b := b) signal
  refine ⟨(b.pollSignalClosed signal).2, hpoll, ?_⟩
  unfold onIdle
  rw [if_neg (by rw [heof]; exact Bool.false_ne_true)]
  have hclosed : (b.pollSignalClosed signal).1 = false := hsig
  generalize b.pollSignalClosed signal = r at hpoll hclosed ⊢
  obtain ⟨closed, c⟩ := r
  obtain ⟨n, hpeek⟩ := hav.peekAvailable
  dsimp only at hpoll hclosed ⊢
  rw [hclosed, if_neg Bool.false_ne_true]
  have hnone : c.peeked.hasPending = false := by
    rw [hasPending, peeked, hpoll.pending_none hp]
    rfl
  unfold peeked at hnone ⊢
  rw [← hpoll.same.vtIn] at hpeek
  generalize c.vtIn.peekAvailable = v at hpeek hnone ⊢
  obtain ⟨found, vtIn⟩ := v
  cases hpeek
  exact if_pos hnone

theorem readLimit_none (hp : b.pending = .none) : b.readLimit = bodySize := by
  rw [readLimit, hp]

/-- With room in `_readbuf`, a read finds what is queued, or what is in the pipe. -/
theorem readAvailableVtInput_bytes (hlimit : b.readLimit = bodySize) (hroom : b.readbuf.length < bodySize)
    (hpipe : b.queuedVtInput = [] → b.vtIn.bytes ≠ [] ∧ b.vtIn.current.count ≠ 0) :
    b.readAvailableVtInput.1 = .bytes ∧ b.readbuf.length < b.readAvailableVtInput.2.readbuf.length := by
  unfold readAvailableVtInput
  dsimp only
  rw [hlimit, if_neg (by omega)]
  by_cases hq : b.queuedVtInput = []
  · obtain ⟨hbytes, hcount⟩ := hpipe hq
    have hlen : b.vtIn.bytes.length ≠ 0 := fun h => hbytes (List.length_eq_zero_iff.mp h)
    rw [if_neg (not_not.mpr hq)]
    have hn : min (bodySize - b.readbuf.length) (min b.vtIn.current.count b.vtIn.bytes.length) ≠ 0 := by omega
    have hread : b.vtIn.readAvailable (bodySize - b.readbuf.length) = _ := if_neg hn
    rw [hread]
    refine ⟨rfl, ?_⟩
    rw [List.length_append, List.length_take]
    omega
  · rw [if_pos hq]
    have hqlen : b.queuedVtInput.length ≠ 0 := fun h => hq (List.length_eq_zero_iff.mp h)
    refine ⟨rfl, ?_⟩
    rw [consumeQueuedVtInput, List.length_append, List.length_take]
    omega

theorem Emits.ahead_peeked (h : Emits b c) : c.peeked.ahead [] = b.ahead [] := by
  rw [ahead, ahead, peeked, ← h.same.queuedVtInput, ← h.same.vtIn]
  rfl

/-- With room in `_readbuf` the next byte is taken. -/
theorem onIdle_progress (hp : b.pending = .none) (heof : b.vtEof = false) (hav : Available b.vtIn) {signal : Signal}
    (hsig : signal.closed = false) (hroom : b.readbuf.length < bodySize) : Progress b (b.onIdle host signal) := by
  obtain ⟨c, hc, he⟩ : ∃ c, Emits b c ∧ b.onIdle host signal = (c.peeked.drainAvailableVtInput host).2 :=
    onIdle_drains hp heof hav hsig
  have hcount : c.peeked.vtIn.current.count ≠ 0 := by
    obtain ⟨peeked, read, later, hseen, -, hcount⟩ := hav.seen
    rw [← hc.same.vtIn] at hseen
    rw [VtIn.current, PipeBridge.peeked, VtIn.peekAvailable, hseen]
    exact hcount
  have hbytes : c.vtIn.bytes ≠ [] := by
    rw [hc.same.vtIn]
    exact hav.bytes
  obtain ⟨hstatus, hlen⟩ := readAvailableVtInput_bytes (b := c.peeked) (readLimit_none (hc.pending_none hp))
    (by rw [PipeBridge.peeked, hc.same.readbuf]; exact hroom) fun _ => ⟨hbytes, hcount⟩
  obtain ⟨chunk, hread, -⟩ := readAvailableVtInput_reads c.peeked
  have hne : chunk ≠ [] := by
    rintro rfl
    rw [hread.readbuf, List.append_nil] at hlen
    exact Nat.lt_irrefl _ hlen
  have hdrain : Progress c.peeked (c.peeked.drainAvailableVtInput host).2 := by
    unfold drainAvailableVtInput
    generalize c.peeked.readAvailableVtInput = r at hstatus hread ⊢
    obtain ⟨status, d⟩ := r
    cases hstatus
    exact hread.progress hne
  rw [he]
  have hconsumed : c.peeked.consumed = b.consumed := hc.same.consumed
  exact ⟨hc.ahead_peeked ▸ hdrain.fewer, hc.ahead_peeked ▸ hconsumed ▸ hdrain.taken⟩

theorem completePending_none (hp : b.pending = .none) : b.completePending = b := by
  rw [completePending, hp]

/-- Nothing has been read, and no read is pending. -/
structure Stays (b c : PipeBridge δ) : Prop where
  ahead : c.ahead [] = b.ahead []
  readbuf : c.readbuf = b.readbuf
  pending : c.pending = .none

theorem Emits.stays (h : Emits b c) (hp : b.pending = .none) : Stays b c :=
  ⟨h.same.ahead_eq [], h.same.readbuf, h.pending_none hp⟩

/-- Without room nothing is taken, whatever arrives, and the buffer stays full. -/
theorem onIdle_full (hp : b.pending = .none) (hfull : bodySize ≤ b.readbuf.length) (signal : Signal) :
    Stays b (b.onIdle host signal) := by
  have hpoll := pollSignalClosed_emits (b := b) signal
  unfold onIdle
  generalize b.pollSignalClosed signal = r at hpoll ⊢
  obtain ⟨closed, c⟩ := r
  dsimp only at hpoll ⊢
  have hpending := hpoll.pending_none hp
  have hquiet : Stays b c := hpoll.stays hp
  have hpeeked : Stays b c.peeked := ⟨hpoll.ahead_peeked, hquiet.readbuf, hpending⟩
  have hdrain : c.peeked.drainAvailableVtInput host = (true, c.peeked) := by
    have hread : c.peeked.readAvailableVtInput = (.full, c.peeked) := by
      unfold readAvailableVtInput
      dsimp only
      rw [readLimit_none hpeeked.pending, if_pos (by rw [hpeeked.readbuf]; omega)]
    rw [drainAvailableVtInput, hread]
    dsimp only
    rw [completePending_none hpeeked.pending]
  unfold peeked at hpeeked hdrain
  split
  · exact ⟨rfl, rfl, hp⟩
  · split
    · rw [completePending_none (by exact hpending)]
      exact ⟨hquiet.ahead, hquiet.readbuf, hpending⟩
    · generalize c.vtIn.peekAvailable = v at hpeeked hdrain ⊢
      obtain ⟨found, vtIn⟩ := v
      dsimp only at hpeeked hdrain ⊢
      split
      · rename_i h
        cases h
        rw [completePending_none (by exact hpending)]
        exact ⟨hpeeked.ahead, hpeeked.readbuf, hpending⟩
      · rename_i h
        cases h
        exact hpeeked
      · rename_i h
        cases h
        rw [hdrain, if_pos (by rw [hasPending, hpending]; rfl)]
        exact hpeeked

/-- The bridge between requests, as long as none comes: what it finds in the pipes each time. -/
def idleRun (host : Host δ) (b : PipeBridge δ) (rounds : List (List Seen × Signal)) : PipeBridge δ :=
  rounds.foldl (fun b round => { b with vtIn := { b.vtIn with seen := round.1 } }.onIdle host round.2) b

/-- Once the buffer is full, no number of idle rounds takes another byte. -/
theorem idleRun_full (rounds : List (List Seen × Signal)) (hp : b.pending = .none)
    (hfull : bodySize ≤ b.readbuf.length) : Stays b (b.idleRun host rounds) := by
  induction rounds generalizing b with
  | nil => exact ⟨rfl, rfl, hp⟩
  | cons round rounds ih =>
    obtain ⟨hahead, hbuf, hpending⟩ : Stays { b with vtIn := { b.vtIn with seen := round.1 } }
        ({ b with vtIn := { b.vtIn with seen := round.1 } }.onIdle host round.2) :=
      onIdle_full (b := { b with vtIn := { b.vtIn with seen := round.1 } }) hp hfull round.2
    have hstep : Stays b ({ b with vtIn := { b.vtIn with seen := round.1 } }.onIdle host round.2) :=
      ⟨hahead, hbuf, hpending⟩
    have hrun := ih hstep.pending (by rw [hstep.readbuf]; exact hfull)
    exact ⟨hrun.ahead.trans hstep.ahead, hrun.readbuf.trans hstep.readbuf, hrun.pending⟩

/-- When the signal pipe is closed, which is the end of the session, no input is taken. -/
theorem onIdle_closed (hp : b.pending = .none) {signal : Signal} (hsig : signal.closed = true) :
    (b.onIdle host signal).ahead [] = b.ahead [] := by
  have hpoll := pollSignalClosed_emits (b := b) signal
  unfold onIdle
  have hclosed : (b.pollSignalClosed signal).1 = true := hsig
  generalize b.pollSignalClosed signal = r at hpoll hclosed ⊢
  obtain ⟨closed, c⟩ := r
  dsimp only at hpoll hclosed ⊢
  split
  · rfl
  · rw [completePending_none (by exact hpoll.pending_none hp)]
    exact hpoll.same.ahead_eq []

end PipeBridge

namespace IoLoop

open PipeBridge

variable {δ : Type} {host : Host δ}

/-- In every state that the loop reaches with no pending read, before the end of the input and with bytes in the pipe,
`on_idle` takes the next byte exactly if the signal pipe is open and `_readbuf` has room. Once it has none, no further
idle round takes a byte. -/
theorem idle_progress_iff (host : Host δ) (d : δ) (inputMode : Nat) (bytes : List UInt8) (inputs : List LoopInput)
    (i : LoopInput) (hpending : (run host (initial d inputMode bytes) inputs).bridge.hasPending = false)
    (heof : (run host (initial d inputMode bytes) inputs).bridge.vtEof = false)
    (hav : Available ((run host (initial d inputMode bytes) inputs).seeing i).vtIn) :
    let b := (run host (initial d inputMode bytes) inputs).seeing i
    (Progress b (b.onIdle host i.signal) ↔ i.signal.closed = false ∧ b.readbuf.length < bodySize) ∧
      (bodySize ≤ b.readbuf.length → ∀ rounds, (b.idleRun host rounds).ahead [] = b.ahead []) := by
  intro b
  have hp : b.pending = .none := not_hasPending (by rw [show b.hasPending = false from hpending]; exact Bool.false_ne_true)
  refine ⟨⟨fun h => ⟨?_, ?_⟩, fun ⟨hsig, hroom⟩ => onIdle_progress hp heof hav hsig hroom⟩,
    fun hfull rounds => (idleRun_full rounds hp hfull).ahead⟩
  · by_contra hclosed
    have hlt := h.fewer
    rw [onIdle_closed hp (by simpa using hclosed)] at hlt
    exact Nat.lt_irrefl _ hlt
  · by_contra hfull
    have hlt := h.fewer
    rw [(onIdle_full hp (Nat.not_lt.mp hfull) _).ahead] at hlt
    exact Nat.lt_irrefl _ hlt

/-- A byte that is there when the loop starts. -/
theorem idle_progress_iff_start :
    let b := (run asciiHost (initial () 0 [0x61]) [{}]).seeing { seen := [{ count := 1 }, { count := 1 }] }
    Progress b (b.onIdle asciiHost {}) := by
  have h := idle_progress_iff asciiHost () 0 [0x61] [{}] { seen := [{ count := 1 }, { count := 1 }] } rfl rfl
    ⟨nofun, _, _, [], rfl, by decide, by decide⟩
  exact h.1.mpr ⟨rfl, by decide⟩

/-- Letters end no line. -/
theorem firstEnd_letters (stops : LineEnd → Bool) (n : Nat) :
    firstEnd asciiHost 0 false stops ⟨(), {}⟩ (List.replicate n 0x61) = none := by
  induction n with
  | zero => rfl
  | succ n ih =>
    -- the parser is where it was before the letter
    rw [List.replicate_succ]
    exact ih

/-- The bridge when it starts to look at its input. -/
def startBridge (bytes : List UInt8) (seen : List Seen) : PipeBridge Unit :=
  { utf8Decoder := (), vtIn := { bytes, seen } }

/-- An idle round fills `_readbuf` with letters. -/
theorem startBridge_onIdle {n : Nat} (hn : n = bodySize) {bytes more : List UInt8} {seen : List Seen}
    (hbytes : bytes = List.replicate n 0x61 ++ more) (hseen : seen = [{ count := 5000 }, { count := 5000 }]) :
    let c := (startBridge bytes seen).onIdle asciiHost {}
    c.pending = .none ∧ c.vtEof = false ∧ c.readbuf.length = bodySize ∧ c.vtIn.bytes = more := by
  intro c
  have hlen : bytes.length = n + more.length := by rw [hbytes, List.length_append, List.length_replicate]
  have hne : bytes ≠ [] := by
    intro hnil
    rw [hnil, List.length_nil, hn, bodySize] at hlen
    omega
  obtain ⟨e, he, hc⟩ : ∃ e, Emits (startBridge bytes seen) e ∧
      (startBridge bytes seen).onIdle asciiHost {} = (e.peeked.drainAvailableVtInput asciiHost).2 :=
    onIdle_drains rfl rfl ⟨hne, _, _, [], hseen, by decide, by decide⟩ rfl
  have hin : e.peeked.vtIn = { bytes, seen := [{ count := 5000 }] } := by
    rw [peeked, he.same.vtIn, startBridge, hseen]
    rfl
  have hpending : e.peeked.pending = .none := he.pending_none rfl
  have hbuf : e.peeked.readbuf = [] := he.same.readbuf
  have hcontrol : e.processControlZ = false := (he.controlZ fun _ => rfl).1
  have hread : e.peeked.readAvailableVtInput = (.bytes, { e.peeked with
      readbuf := List.replicate n 0x61, vtIn := { bytes := more, seen := [] } }) := by
    have hqueued : e.peeked.queuedVtInput = [] := he.same.queuedVtInput
    have hmin : min bodySize (min 5000 bytes.length) = n := by
      rw [hlen, ← hn]
      unfold bodySize at hn
      omega
    have hfound : VtIn.readAvailable { bytes, seen := [{ count := 5000 }] } bodySize =
        (.bytes (bytes.take n), { bytes := bytes.drop n, seen := [] }) := by
      unfold VtIn.readAvailable
      rw [show min bodySize (min (VtIn.current { bytes, seen := [{ count := 5000 }] }).count bytes.length) = n from hmin]
      exact if_neg (by rw [hn]; decide)
    unfold readAvailableVtInput
    dsimp only
    rw [readLimit_none hpending, hbuf, hqueued, hin, if_neg (by decide), if_neg (by decide), List.length_nil,
      Nat.sub_zero, hfound, hbytes, List.take_left' List.length_replicate, List.drop_left' List.length_replicate]
    rfl
  -- `d` is the bridge when it starts on the letters
  generalize hd : startRound { e.peeked with
    readbuf := List.replicate n 0x61, vtIn := { bytes := more, seen := [] }, lineFound := false } 0
      (List.replicate n 0x61) false = d
  have hc' : c = d.processBytes asciiHost 0 (List.replicate n 0x61) := by
    rw [← hd]
    refine hc.trans ?_
    rw [drainAvailableVtInput, hread]
    dsimp only
    rw [hbuf]
    rfl
  have hrun := processBytes_run asciiHost d 0 (List.replicate n 0x61)
  rw [← hc'] at hrun
  have hletters : chunkEnd asciiHost d (LineEnd.stops d.pendingKind) (List.replicate n 0x61) = none := by
    have hmode : d.inputMode = 0 := by rw [← hd]; exact he.same.inputMode
    have hz : d.processControlZ = false := by rw [← hd]; exact hcontrol
    have hscanner : d.scanner = ⟨(), {}⟩ := by
      rw [scanner, ← hd]
      exact congrArg (Scanner.mk ()) he.same.inputParser
    rw [chunkEnd, hmode, hz, hscanner]
    exact firstEnd_letters _ n
  obtain ⟨hfull, hnone, hvt⟩ := hrun.no_stop (by rw [← hd]; exact hpending) (by rw [← hd]; exact fun _ => hcontrol) hletters
  refine ⟨hnone, ?_, ?_, ?_⟩
  · rw [hrun.kept.2.1, ← hd]
    exact he.same.vtEof
  · rw [hfull, ← hd, ← hn]
    exact List.length_replicate
  · rw [hvt, ← hd]
    rfl

/-- READ_IO returns no message, and there is no completion to submit. -/
theorem step_noMessage {s : IoLoop δ} (hpc : s.pc = .read) (hprev : s.prevDone = none) (seen : List Seen) :
    (s.step host { seen }).bridge.pending = s.bridge.pending ∧ (s.step host { seen }).bridge.vtEof = s.bridge.vtEof ∧
      (s.step host { seen }).bridge.readbuf = s.bridge.readbuf ∧
      (s.step host { seen }).bridge.vtIn.bytes = s.bridge.vtIn.bytes := by
  rw [step_read hpc]
  unfold read submit
  dsimp only
  rw [hprev]
  exact ⟨rfl, rfl, rfl, rfl⟩

/-- Up to the first READ_IO, which returns no message, the loop only looks at its input. -/
theorem run_idle (bytes : List UInt8) (seen : List Seen)
    (heof : ((startBridge bytes seen).onIdle asciiHost {}).vtEof = false) :
    let i : LoopInput := { seen }
    let b := (run asciiHost (initial () 0 bytes) [i, i, i]).bridge
    let c := (startBridge bytes seen).onIdle asciiHost {}
    b.pending = c.pending ∧ b.vtEof = false ∧ b.readbuf = c.readbuf ∧ b.vtIn.bytes = c.vtIn.bytes := by
  intro i b c
  have htwo : run asciiHost (initial () 0 bytes) [i, i] = exitOr { initial () 0 bytes with bridge := c } .read := rfl
  have hread : exitOr { initial () 0 bytes with bridge := c } .read = { initial () 0 bytes with bridge := c, pc := .read } := by
    unfold exitOr
    rw [shouldExit, show c.vtEof = false from heof]
    rfl
  have hb : b = ((run asciiHost (initial () 0 bytes) [i, i]).step asciiHost i).bridge := rfl
  rw [hb, htwo, hread]
  obtain ⟨h1, h2, h3, h4⟩ := @step_noMessage Unit asciiHost { initial () 0 bytes with bridge := c, pc := .read } rfl rfl
    seen
  exact ⟨h1, h2.trans heof, h3, h4⟩

/-- More letters than `_readbuf` has room for arrive while nobody reads. -/
theorem idle_stops_letters {n : Nat} (hn : n = bodySize) {bytes more : List UInt8}
    (hbytes : bytes = List.replicate n 0x61 ++ more) (hmore : more ≠ []) {seen : List Seen}
    (hseen : seen = [{ count := 5000 }, { count := 5000 }]) :
    let s := run asciiHost (initial () 0 bytes) [{ seen }, { seen }, { seen }]
    let b := s.seeing { seen }
    s.bridge.hasPending = false ∧ s.bridge.vtEof = false ∧ Available b.vtIn ∧
      ¬ Progress b (b.onIdle asciiHost {}) := by
  intro s b
  obtain ⟨hpending, heof, hlen, hrest⟩ := startBridge_onIdle hn hbytes hseen
  obtain ⟨hp, he, hr, hb⟩ := run_idle bytes seen heof
  have hbp : b.pending = .none := hp.trans hpending
  have hbuf : b.readbuf.length = bodySize := (congrArg List.length hr).trans hlen
  have hvt : b.vtIn.bytes = more := hb.trans hrest
  refine ⟨?_, he, ⟨by rw [hvt]; exact hmore, _, _, [], hseen, by decide, by decide⟩, fun h => ?_⟩
  · rw [show s.bridge.hasPending = b.hasPending from rfl, hasPending, hbp]
    rfl
  · have hlt := h.fewer
    have hstays : Stays b (b.onIdle asciiHost {}) := onIdle_full hbp (Nat.le_of_eq hbuf.symm) {}
    rw [hstays.ahead] at hlt
    exact Nat.lt_irrefl _ hlt

/-- 5000 letters arrive while nobody reads: 4096 of them become key events, and the others stay in the pipe. -/
theorem idle_stops :
    let seen : List Seen := [{ count := 5000 }, { count := 5000 }]
    let s := run asciiHost (initial () 0 (List.replicate 4096 0x61 ++ List.replicate 904 0x61)) [{ seen }, { seen }, { seen }]
    let b := s.seeing { seen }
    s.bridge.hasPending = false ∧ s.bridge.vtEof = false ∧ Available b.vtIn ∧
      ¬ Progress b (b.onIdle asciiHost {}) :=
  idle_stops_letters (show 4096 = bodySize from rfl) rfl (List.ne_nil_of_length_pos (by rw [List.length_replicate]; decide)) rfl

end IoLoop

end Corehost
