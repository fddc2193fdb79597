import Corehost.Input.Idle
import Corehost.Input.LineContent
import Corehost.Lib.Runs

/-!
# The end of a line read

A pending ReadConsole ends with its line: at CR, LF or VK_RETURN, at Ctrl+Z
where the request asks for it, at Ctrl+C or Ctrl+Break, or at the end of the
input. Its bytes are counted in `_readbuf`, and `accumulate_from_pipe` and
`drain_available_vt_input` complete the request when there is no room left.

* `ChunkRun.scanned`, `ChunkRun.ended`: a chunk without an end and with one;
* `Looks`: what a call does that looks for input;
* `read_ends_with_line_iff`: the request ends with the line, however its bytes
  arrive, exactly if the line has room.
-/

namespace Corehost

open Lib

/-- A call that looks for input while a read is pending, with what it finds in the pipes. -/
inductive InputCall where
  /-- `accumulate_from_pipe`, in the handler of the request -/
  | accumulate (seen : List Seen)
  | idle (seen : List Seen) (signal : Signal)
  | wait (seen : List Seen) (signal : Signal)
deriving DecidableEq, Repr

namespace PipeBridge

variable {δ : Type}

def seeing (b : PipeBridge δ) (seen : List Seen) : PipeBridge δ := { b with vtIn := { b.vtIn with seen } }

/-- The bridge after a call, as long as the line read in `m` is pending. -/
def look (host : Host δ) (m : MsgRef) (b : PipeBridge δ) (call : InputCall) : Option (PipeBridge δ) :=
  if b.pending = .consoleRead m then
    match call with
    | .accumulate seen => some ((b.seeing seen).accumulateFromPipe host).2
    | .idle seen signal => some ((b.seeing seen).onIdle host signal)
    | .wait seen signal => some ((b.seeing seen).waitForPendingVtInput host signal)
  else none

/-- The first end of a line read in the bytes, and what follows it. -/
def lineEnd (host : Host δ) (b : PipeBridge δ) (bytes : List UInt8) : Option (LineEnd × List UInt8) :=
  chunkEnd host b (LineEnd.stops .consoleRead) bytes

/-- The bytes that were taken since `b`. -/
def takenSince (b c : PipeBridge δ) : List UInt8 := (c.consumed.drop b.consumed.length).filterMap Taken.byte?

/-- The line read that is pending in `b` has taken no end so far, or has ended with its line. -/
inductive EndsWithLine (host : Host δ) (b c : PipeBridge δ) : Prop
  | pending (hpending : c.pending = b.pending) (hsent : takenSince b c <+: b.ahead [])
    (hnone : lineEnd host b (takenSince b c) = none)
  /-- `lf` is the LF of a CR LF. -/
  | ended {line lf : List UInt8} {e : LineEnd} (hdone : c.pending = .none) (htaken : takenSince b c = line ++ lf)
    (hlf : lf = [] ∨ lf = [0x0A]) (hsent : line <+: b.ahead []) (hend : lineEnd host b line = some (e, []))
  | eof (hdone : c.pending = .none) (heof : c.vtEof = true) (hsent : takenSince b c <+: b.ahead [])
    (hnone : lineEnd host b (takenSince b c) = none)

/-- The input is shorter than what `_readbuf` has room for, or a line ends within it. -/
def RoomForLine (host : Host δ) (b : PipeBridge δ) : Prop :=
  (b.ahead []).length < bodySize - b.readbuf.length ∨
    (lineEnd host b ((b.ahead []).take (bodySize - b.readbuf.length))).isSome = true

variable {host : Host δ} {b c d : PipeBridge δ} {m : MsgRef} {pos : Nat} {bytes chunk : List UInt8}

/-! ## Ends -/

theorem firstEnd_append {mode : Nat} {controlZ : Bool} {stops : LineEnd → Bool} {e : LineEnd} (later : List UInt8) :
    ∀ {bytes rest : List UInt8} {σ : Scanner δ}, firstEnd host mode controlZ stops σ bytes = some (e, rest) →
      firstEnd host mode controlZ stops σ (bytes ++ later) = some (e, rest ++ later)
  | [], _, _, h => absurd h.symm (Option.some_ne_none _)
  | byte :: bytes, rest, σ, h => by
    rw [firstEnd] at h
    rw [List.cons_append, firstEnd]
    cases he : (scanByte host mode controlZ σ byte).1.filter stops with
    | some e' =>
      rw [he] at h
      obtain ⟨rfl, rfl⟩ := Prod.mk.inj (Option.some_inj.mp h)
      rfl
    | none =>
      rw [he] at h
      exact firstEnd_append later h

theorem lineEnd_append {e : LineEnd} {rest : List UInt8} (h : lineEnd host b bytes = some (e, rest)) (later : List UInt8) :
    lineEnd host b (bytes ++ later) = some (e, rest ++ later) :=
  firstEnd_append later h

/-- The beginning of bytes without an end. -/
theorem lineEnd_of_append {later : List UInt8} (h : lineEnd host b (bytes ++ later) = none) : lineEnd host b bytes = none := by
  by_contra hsome
  obtain ⟨⟨e, rest⟩, hend⟩ := Option.ne_none_iff_exists'.mp hsome
  rw [lineEnd_append hend] at h
  exact absurd h (Option.some_ne_none _)

theorem lineEnd_congr (hmode : c.inputMode = b.inputMode) (hz : c.processControlZ = b.processControlZ)
    (hscanner : c.scanner = b.scanner) (bytes : List UInt8) : lineEnd host c bytes = lineEnd host b bytes := by
  rw [lineEnd, lineEnd, chunkEnd, chunkEnd, hmode, hz, hscanner]

theorem takenSince_append {ts : List Taken} (h : c.consumed = b.consumed ++ ts) :
    takenSince b c = ts.filterMap Taken.byte? := by
  rw [takenSince, h, List.drop_left]

theorem reading_consoleRead (hp : b.pending = .consoleRead m) : b.reading = some m := by
  rw [reading, hp]

theorem pendingKind_consoleRead (hp : b.pending = .consoleRead m) : b.pendingKind = .consoleRead := by
  rw [pendingKind, hp, Pending.kind]

/-! ## A chunk -/

/-- A chunk in which no line ends. -/
structure Scanned (host : Host δ) (b : PipeBridge δ) (chunk : List UInt8) (c : PipeBridge δ) : Prop where
  pending : c.pending = b.pending
  lineFound : c.lineFound = b.lineFound
  readbuf : c.readbuf = b.readbuf
  queuedVtInput : c.queuedVtInput = b.queuedVtInput
  vtIn : c.vtIn = b.vtIn
  vtEof : c.vtEof = b.vtEof
  consumed : ∃ ts, c.consumed = b.consumed ++ ts ∧ ts.filterMap Taken.byte? = chunk
  scan : ∀ more, lineEnd host b (chunk ++ more) = lineEnd host c more

theorem Scanned.nil (b : PipeBridge δ) : Scanned host b [] b :=
  ⟨rfl, rfl, rfl, rfl, rfl, rfl, ⟨[], (List.append_nil _).symm, rfl⟩, fun _ => rfl⟩

theorem Scanned.append {more : List UInt8} (h : Scanned host b chunk c) (h' : Scanned host c more d) :
    Scanned host b (chunk ++ more) d := by
  obtain ⟨ts, hts, hbytes⟩ := h.consumed
  obtain ⟨ts', hts', hbytes'⟩ := h'.consumed
  refine ⟨h'.pending.trans h.pending, h'.lineFound.trans h.lineFound, h'.readbuf.trans h.readbuf,
    h'.queuedVtInput.trans h.queuedVtInput, h'.vtIn.trans h.vtIn, h'.vtEof.trans h.vtEof, ⟨ts ++ ts', ?_, ?_⟩, ?_⟩
  · rw [hts', hts, List.append_assoc]
  · rw [List.filterMap_append, hbytes, hbytes']
  · intro later
    rw [List.append_assoc, h.scan, h'.scan]

/-- A line has ended within `stream`. -/
structure Ended (host : Host δ) (b : PipeBridge δ) (stream : List UInt8) (c : PipeBridge δ) : Prop where
  pending : c.pending = .none
  taken : ∃ line lf ts e, c.consumed = b.consumed ++ ts ∧ ts.filterMap Taken.byte? = line ++ lf ∧
    (lf = [] ∨ lf = [0x0A]) ∧ line <+: stream ∧ lineEnd host b line = some (e, [])

theorem Ended.of_begins {stream : List UInt8} (h : Ended host b chunk c) (hs : chunk <+: stream) :
    Ended host b stream c := by
  obtain ⟨hdone, line, lf, ts, e, hts, hbytes, hlf, hline, hend⟩ := h
  exact ⟨hdone, line, lf, ts, e, hts, hbytes, hlf, hline.trans hs, hend⟩

theorem Scanned.ended {more : List UInt8} (h : Scanned host b chunk c) (h' : Ended host c more d) :
    Ended host b (chunk ++ more) d := by
  obtain ⟨ts, hts, hbytes⟩ := h.consumed
  obtain ⟨hdone, line, lf, ts', e, hts', hbytes', hlf, hline, hend⟩ := h'
  refine ⟨hdone, chunk ++ line, lf, ts ++ ts', e, ?_, ?_, hlf, (List.prefix_append_right_inj _).mpr hline, ?_⟩
  · rw [hts', hts, List.append_assoc]
  · rw [List.filterMap_append, hbytes, hbytes', List.append_assoc]
  · rw [h.scan, hend]

/-- A byte that is no end. -/
theorem ByteStep.scanned {byte : UInt8} {rest : List UInt8} (h : ByteStep host b byte pos rest (false, c))
    (hp : b.pending = .consoleRead m) : Scanned host b [byte] c := by
  cases h with
  | @go _ found hstop hfound h =>
    have hread : b.reading ≠ none := by
      rw [reading_consoleRead hp]
      exact Option.some_ne_none _
    rw [pendingKind_consoleRead hp] at hstop
    have hfound' : found = b.lineFound := by
      rcases hfound with hf | hf
      · exact hf
      · rw [hf] at hstop
        exact absurd hstop (by decide)
    have hpending : c.pending = b.pending := congrArg Account.pending (h.account_eq hread)
    exact ⟨hpending, h.same.lineFound.trans hfound', h.same.readbuf, h.same.queuedVtInput, h.same.vtIn, h.same.vtEof,
      ⟨[⟨b.reader, .byte byte, b.inputMode, none⟩], h.same.consumed, rfl⟩,
      fun more => chunkEnd_cons _ more hstop h (h.controlZ_eq hread)⟩

theorem TakesLf.consumed_eq {ending : Option UInt8} {pos' : Nat} {rest rest' : List UInt8}
    (h : TakesLf b ending pos rest c pos' rest') :
    ∃ lf ts, c.consumed = b.consumed ++ ts ∧ ts.filterMap Taken.byte? = lf ∧ (lf = [] ∨ lf = [0x0A]) := by
  cases h with
  | none => exact ⟨[], [], (List.append_nil _).symm, rfl, .inl rfl⟩
  | chunk => exact ⟨[0x0A], _, rfl, rfl, .inr rfl⟩
  | pipe => exact ⟨[0x0A], _, rfl, rfl, .inr rfl⟩

/-- A byte that is an end. -/
theorem ByteStep.ended_line {byte : UInt8} {rest : List UInt8} (h : ByteStep host b byte pos rest (true, c))
    (hp : b.pending = .consoleRead m) : Ended host b [byte] c ∧ c.lineFound = true := by
  cases h with
  | @ended c m' e σ ending pos' rest' status data hend hstop hcr hm hlf hdata inp line inputParser readAborted =>
    obtain ⟨lf, ts, hts, hbytes, hlf'⟩ := hlf.consumed_eq
    rw [pendingKind_consoleRead hp] at hstop
    rw [finish_eq]
    refine ⟨⟨rfl, [byte], lf, ⟨b.reader, .byte byte, b.inputMode, ending⟩ :: ts, e, ?_, congrArg (byte :: ·) hbytes,
      hlf', List.prefix_refl _, chunkEnd_stop hend hstop []⟩, rfl⟩
    exact hts.trans (List.append_assoc _ _ _)
  | events hend hstop hcr hm =>
    rw [reading_consoleRead hp] at hm
    exact absurd hm (Option.some_ne_none _)

/-- No line ends in a chunk, or one does. -/
theorem ChunkRun.reads (h : ChunkRun host b pos chunk c) (hp : b.pending = .consoleRead m) :
    Scanned host b chunk c ∨ Ended host b chunk c ∧ c.lineFound = true := by
  induction h with
  | done => exact .inl (.nil _)
  | @stop b c pos byte rest h =>
    obtain ⟨hended, hfound⟩ := h.ended_line hp
    exact .inr ⟨hended.of_begins ⟨rest, rfl⟩, hfound⟩
  | @go b c d pos byte rest h hrun ih =>
    have hbyte := h.scanned hp
    rcases ih (hbyte.pending.trans hp) with hrest | ⟨hrest, hfound⟩
    · exact .inl (hbyte.append hrest)
    · exact .inr ⟨hbyte.ended hrest, hfound⟩

/-! ## A call -/

/-- The bytes were taken, and none of them is an end. -/
structure Goes (host : Host δ) (b : PipeBridge δ) (bytes : List UInt8) (c : PipeBridge δ) : Prop where
  pending : c.pending = b.pending
  vtEof : c.vtEof = b.vtEof
  consumed : ∃ ts, c.consumed = b.consumed ++ ts ∧ ts.filterMap Taken.byte? = bytes
  readbuf : c.readbuf = b.readbuf ++ bytes
  ahead : b.ahead [] = bytes ++ c.ahead []
  scan : ∀ more, lineEnd host b (bytes ++ more) = lineEnd host c more

theorem Goes.append {more : List UInt8} (h : Goes host b bytes c) (h' : Goes host c more d) :
    Goes host b (bytes ++ more) d := by
  obtain ⟨ts, hts, hbytes⟩ := h.consumed
  obtain ⟨ts', hts', hbytes'⟩ := h'.consumed
  refine ⟨h'.pending.trans h.pending, h'.vtEof.trans h.vtEof, ⟨ts ++ ts', ?_, ?_⟩, ?_, ?_, ?_⟩
  · rw [hts', hts, List.append_assoc]
  · rw [List.filterMap_append, hbytes, hbytes']
  · rw [h'.readbuf, h.readbuf, List.append_assoc]
  · rw [h.ahead, h'.ahead, List.append_assoc]
  · intro later
    rw [List.append_assoc, h.scan, h'.scan]

theorem Goes.no_end (h : Goes host b bytes c) : lineEnd host b bytes = none := by
  rw [← List.append_nil bytes, h.scan]
  rfl

theorem Goes.takenSince_eq (h : Goes host b bytes c) : takenSince b c = bytes := by
  obtain ⟨ts, hts, hbytes⟩ := h.consumed
  rw [takenSince_append hts, hbytes]

/-- What keeps the input, the parser and the request. -/
theorem goes_quiet (hpending : c.pending = b.pending) (hmode : c.inputMode = b.inputMode)
    (hz : c.processControlZ = b.processControlZ) (hscanner : c.scanner = b.scanner) (heof : c.vtEof = b.vtEof)
    (hconsumed : c.consumed = b.consumed) (hbuf : c.readbuf = b.readbuf) (hahead : c.ahead [] = b.ahead []) :
    Goes host b [] c :=
  ⟨hpending, heof, ⟨[], hconsumed.trans (List.append_nil _).symm, rfl⟩, hbuf.trans (List.append_nil _).symm,
    hahead.symm, fun more => (lineEnd_congr hmode hz hscanner more).symm⟩

theorem goes_seeing (b : PipeBridge δ) (seen : List Seen) : Goes host b [] (b.seeing seen) :=
  goes_quiet rfl rfl rfl rfl rfl rfl rfl rfl

theorem Emits.goes (h : Emits b c) (hp : b.pending = .consoleRead m) : Goes host b [] c := by
  have hread : b.reading ≠ none := by
    rw [reading_consoleRead hp]
    exact Option.some_ne_none _
  have hs := h.same
  refine goes_quiet (congrArg Account.pending (h.account_eq hread)) hs.inputMode (h.controlZ_eq hread) ?_ hs.vtEof
    hs.consumed hs.readbuf (hs.ahead_eq [])
  rw [scanner, scanner, hs.utf8Decoder, hs.inputParser]

/-- A line has ended, or the input has, or there is no room for more of the line. -/
inductive Looks (host : Host δ) (b c : PipeBridge δ) : Prop
  | waits {bytes : List UInt8} (h : Goes host b bytes c)
  | ended (h : Ended host b (b.ahead []) c)
  | eof {bytes : List UInt8} {d : PipeBridge δ} (h : Goes host b bytes d) (hconsumed : c.consumed = d.consumed)
    (hdone : c.pending = .none) (heof : c.vtEof = true)
  | full {bytes : List UInt8} {d : PipeBridge δ} (h : Goes host b bytes d) (hfull : bodySize ≤ d.readbuf.length)
    (hconsumed : c.consumed = d.consumed) (hdone : c.pending = .none) (heof : c.vtEof = b.vtEof)

theorem Goes.ended (h : Goes host b bytes c) (h' : Ended host c (c.ahead []) d) : Ended host b (b.ahead []) d := by
  obtain ⟨ts, hts, hbytes⟩ := h.consumed
  obtain ⟨hdone, line, lf, ts', e, hts', hbytes', hlf, hline, hend⟩ := h'
  refine ⟨hdone, bytes ++ line, lf, ts ++ ts', e, ?_, ?_, hlf, ?_, ?_⟩
  · rw [hts', hts, List.append_assoc]
  · rw [List.filterMap_append, hbytes, hbytes', List.append_assoc]
  · rw [h.ahead]
    exact (List.prefix_append_right_inj _).mpr hline
  · rw [h.scan, hend]

theorem Goes.looks (h : Goes host b bytes c) (h' : Looks host c d) : Looks host b d := by
  cases h' with
  | waits h' => exact .waits (h.append h')
  | ended h' => exact .ended (h.ended h')
  | eof h' hconsumed hdone heof => exact .eof (h.append h') hconsumed hdone heof
  | full h' hfull hconsumed hdone heof => exact .full (h.append h') hfull hconsumed hdone (heof.trans h.vtEof)

theorem completePending_consoleRead (hp : b.pending = .consoleRead m) :
    b.completePending.pending = .none ∧ b.completePending.consumed = b.consumed ∧ b.completePending.vtEof = b.vtEof := by
  obtain ⟨status, data, line, -, -, heq⟩ := completePending_reading (reading_consoleRead hp)
  rw [heq, finish_eq]
  exact ⟨rfl, rfl, rfl⟩

theorem Goes.eof (h : Goes host b bytes c) (hp : b.pending = .consoleRead m) : Looks host b c.completePendingWithEof := by
  obtain ⟨hdone, hconsumed, heof⟩ := completePending_consoleRead (b := { c with vtEof := true }) (h.pending.trans hp)
  exact .eof h hconsumed hdone heof

theorem Goes.full (h : Goes host b bytes c) (hp : b.pending = .consoleRead m) (hfull : bodySize ≤ c.readbuf.length) :
    Looks host b c.completePending := by
  obtain ⟨hdone, hconsumed, heof⟩ := completePending_consoleRead (h.pending.trans hp)
  exact .full h hfull hconsumed hdone (heof.trans h.vtEof)

/-! ### A read -/

theorem readLimit_consoleRead (hp : b.pending = .consoleRead m) : b.readLimit = bodySize := by
  rw [readLimit, hp]

/-- A chunk that has been read, and is not processed yet. -/
structure Found (b : PipeBridge δ) (chunk : List UInt8) (c : PipeBridge δ) : Prop extends Reads b chunk c where
  mode : c.inputMode = b.inputMode
  scanner : c.scanner = b.scanner
  vtEof : c.vtEof = b.vtEof

theorem readAvailableVtInput_found (b : PipeBridge δ) : ∃ chunk, Found b chunk b.readAvailableVtInput.2 ∧
    (b.readAvailableVtInput.1 ≠ .bytes → chunk = []) ∧
    (b.readAvailableVtInput.1 = .full → b.readLimit ≤ b.readbuf.length) := by
  obtain ⟨chunk, hread, hchunk⟩ := readAvailableVtInput_reads b
  obtain ⟨readbuf, queued, sync, vtIn, heq⟩ := readAvailableVtInput_eq b
  refine ⟨chunk, ⟨hread, by rw [heq], by rw [heq]; rfl, by rw [heq]⟩, hchunk, ?_⟩
  unfold readAvailableVtInput
  dsimp only
  split_ifs with hroom
  · exact fun _ => Nat.sub_eq_zero_iff_le.mp hroom
  · simp
  · split <;> simp

theorem Found.goes (h : Found b [] c) : Goes host b [] c :=
  goes_quiet (congrArg Account.pending h.account) h.mode h.controlZ h.scanner h.vtEof h.consumed
    (h.readbuf.trans (List.append_nil _)) h.ahead

theorem Found.chunk_begins (h : Found b chunk c) : chunk <+: b.ahead [] := by
  rw [← h.ahead, ahead]
  exact List.prefix_append _ _

/-- What the chunk does. -/
theorem Found.processed (h : Found b chunk c) (hp : b.pending = .consoleRead m) (d : PipeBridge δ)
    (hd : d = c.processNewVtInput host b.readbuf.length) :
    Goes host b chunk d ∧ d.lineFound = false ∧ d.vtIn = c.vtIn ∧ d.queuedVtInput = c.queuedVtInput ∨
      Ended host b chunk d ∧ d.lineFound = true := by
  have hpending : c.pending = b.pending := congrArg Account.pending h.account
  have hchunk : c.readbuf.drop b.readbuf.length = chunk := by rw [h.readbuf, List.drop_left]
  generalize hstart : startRound { c with lineFound := false } b.readbuf.length chunk false = start
  have hrun : ChunkRun host start b.readbuf.length chunk d := by
    rw [hd, processNewVtInput, processInput, hchunk, hstart]
    exact processBytes_run host start b.readbuf.length chunk
  have hends (bytes : List UInt8) : lineEnd host start bytes = lineEnd host b bytes :=
    lineEnd_congr (by rw [← hstart]; exact h.mode) (by rw [← hstart]; exact h.controlZ)
      (by rw [← hstart]; exact h.scanner) bytes
  have hconsumed : start.consumed = b.consumed := by rw [← hstart]; exact h.consumed
  have hp' : start.pending = b.pending := by rw [← hstart]; exact hpending
  rcases hrun.reads (hp'.trans hp) with hs | ⟨hended, hfound⟩
  · have hq : d.queuedVtInput = c.queuedVtInput := by rw [hs.queuedVtInput, ← hstart]; rfl
    have hv : d.vtIn = c.vtIn := by rw [hs.vtIn, ← hstart]; rfl
    refine .inl ⟨⟨hs.pending.trans hp', ?_, hconsumed ▸ hs.consumed, ?_, ?_, fun more => ?_⟩, ?_, hv, hq⟩
    · rw [hs.vtEof, ← hstart]
      exact h.vtEof
    · rw [hs.readbuf, ← hstart]
      exact h.readbuf
    · rw [← h.ahead, ahead, ahead, hq, hv]
      rfl
    · rw [← hends, hs.scan]
    · rw [hs.lineFound, ← hstart]
      rfl
  · obtain ⟨hdone, line, lf, ts, e, hts, hbytes, hlf, hline, hend⟩ := hended
    exact .inr ⟨⟨hdone, line, lf, ts, e, hconsumed ▸ hts, hbytes, hlf, hline, (hends line) ▸ hend⟩, hfound⟩

theorem accumulateLoop_looks (n : Nat) (hp : b.pending = .consoleRead m) : Looks host b (accumulateLoop host n b).2 := by
  induction n generalizing b with
  | zero => exact .waits (goes_seeing b b.vtIn.seen)
  | succ n ih =>
    obtain ⟨chunk, hfound, hchunk, hfull⟩ := readAvailableVtInput_found b
    rw [accumulateLoop]
    generalize b.readAvailableVtInput = r at hfound hchunk hfull
    obtain ⟨status, c⟩ := r
    cases status with
    | bytes =>
      dsimp only
      rcases hfound.processed hp _ rfl with ⟨hgoes, hline, -⟩ | ⟨hended, hline⟩
      · rw [hline, if_neg Bool.false_ne_true]
        exact hgoes.looks (ih (hgoes.pending.trans hp))
      · rw [if_pos hline]
        exact .ended (hended.of_begins hfound.chunk_begins)
    | empty =>
      obtain rfl := hchunk (by simp)
      exact .waits hfound.goes
    | eof =>
      obtain rfl := hchunk (by simp)
      exact hfound.goes.eof hp
    | full =>
      obtain rfl := hchunk (by simp)
      have hroom := readLimit_consoleRead hp ▸ hfull rfl
      exact hfound.goes.full hp (hroom.trans (by rw [hfound.readbuf]; exact List.length_append ▸ Nat.le_add_right _ _))

theorem drainAvailableVtInput_looks (hp : b.pending = .consoleRead m) : Looks host b (b.drainAvailableVtInput host).2 ∧
    ((b.drainAvailableVtInput host).1 = false → Goes host b [] (b.drainAvailableVtInput host).2) := by
  obtain ⟨chunk, hfound, hchunk, hfull⟩ := readAvailableVtInput_found b
  rw [drainAvailableVtInput]
  generalize b.readAvailableVtInput = r at hfound hchunk hfull
  obtain ⟨status, c⟩ := r
  cases status with
  | bytes =>
    refine ⟨?_, fun h => absurd h.symm Bool.false_ne_true⟩
    rcases hfound.processed hp _ rfl with ⟨hgoes, -⟩ | ⟨hended, -⟩
    · exact .waits hgoes
    · exact .ended (hended.of_begins hfound.chunk_begins)
  | empty =>
    obtain rfl := hchunk (by simp)
    exact ⟨.waits hfound.goes, fun _ => hfound.goes⟩
  | eof =>
    obtain rfl := hchunk (by simp)
    exact ⟨hfound.goes.eof hp, fun h => absurd h.symm Bool.false_ne_true⟩
  | full =>
    obtain rfl := hchunk (by simp)
    have hroom := readLimit_consoleRead hp ▸ hfull rfl
    refine ⟨hfound.goes.full hp ?_, fun h => absurd h.symm Bool.false_ne_true⟩
    exact hroom.trans (by rw [hfound.readbuf]; exact List.length_append ▸ Nat.le_add_right _ _)

theorem onIdle_looks (hp : b.pending = .consoleRead m) (signal : Signal) : Looks host b (b.onIdle host signal) := by
  unfold onIdle
  split
  · exact .waits (goes_seeing b b.vtIn.seen)
  · have hpoll : Goes host b [] (b.pollSignalClosed signal).2 := (pollSignalClosed_emits signal).goes hp
    generalize b.pollSignalClosed signal = r at hpoll ⊢
    obtain ⟨closed, c⟩ := r
    have hp' : c.pending = .consoleRead m := hpoll.pending.trans hp
    dsimp only
    split
    · exact hpoll.eof hp
    · have hpeek (vtIn : VtIn) (hv : vtIn.bytes = c.vtIn.bytes) : Goes host c [] { c with vtIn } :=
        goes_quiet rfl rfl rfl rfl rfl rfl rfl (by rw [ahead, ahead, hv])
      have hbytes := peekAvailable_bytes c.vtIn
      generalize c.vtIn.peekAvailable = r at hbytes ⊢
      obtain ⟨n, vtIn⟩ := r
      have hv : Goes host b [] { c with vtIn } := hpoll.append (hpeek vtIn hbytes)
      split
      · rename_i heq
        cases heq
        exact hv.eof hp
      · rename_i heq
        cases heq
        exact .waits hv
      · rename_i heq
        cases heq
        have hpending : ({ c with vtIn } : PipeBridge δ).hasPending = true := by
          rw [hasPending, hp']
          rfl
        rw [hpending, if_neg (by decide)]
        exact hv.looks (accumulateLoop_looks _ hp')

theorem waitForPendingVtInput_looks (hp : b.pending = .consoleRead m) (signal : Signal) :
    Looks host b (b.waitForPendingVtInput host signal) := by
  unfold waitForPendingVtInput
  split
  · exact .waits (goes_seeing b b.vtIn.seen)
  · obtain ⟨hdrain, hempty⟩ := @drainAvailableVtInput_looks _ host b m hp
    generalize b.drainAvailableVtInput host = r at hdrain hempty ⊢
    obtain ⟨changed, c⟩ := r
    cases changed with
    | true => exact hdrain
    | false =>
      have hc : Goes host b [] c := hempty rfl
      have hpoll : Goes host c [] (c.pollSignalClosed signal).2 := (pollSignalClosed_emits signal).goes (hc.pending.trans hp)
      dsimp only
      generalize c.pollSignalClosed signal = r at hpoll ⊢
      obtain ⟨closed, d⟩ := r
      have hd : Goes host b [] d := hc.append hpoll
      rw [if_neg Bool.false_ne_true]
      cases closed with
      | true => exact hd.eof hp
      | false => exact hd.looks (drainAvailableVtInput_looks (hd.pending.trans hp)).1

theorem look_looks {call : InputCall} (hc : b.look host m call = some c) :
    b.pending = .consoleRead m ∧ Looks host b c := by
  unfold look at hc
  split_ifs at hc with hp
  refine ⟨hp, ?_⟩
  cases call with
  | accumulate seen =>
    have hloop : Looks host (b.seeing seen) _ := accumulateLoop_looks (b := b.seeing seen) (bodySize + 1) hp
    exact Option.some_inj.mp hc ▸ (goes_seeing b seen).looks hloop
  | idle seen signal =>
    have hidle : Looks host (b.seeing seen) ((b.seeing seen).onIdle host signal) :=
      onIdle_looks (b := b.seeing seen) hp signal
    exact Option.some_inj.mp hc ▸ (goes_seeing b seen).looks hidle
  | wait seen signal =>
    have hwait : Looks host (b.seeing seen) ((b.seeing seen).waitForPendingVtInput host signal) :=
      waitForPendingVtInput_looks (b := b.seeing seen) hp signal
    exact Option.some_inj.mp hc ▸ (goes_seeing b seen).looks hwait

/-! ## Room for the line -/

theorem Goes.takenSince_begins (h : Goes host b bytes c) : takenSince b c <+: b.ahead [] := by
  rw [h.takenSince_eq, h.ahead]
  exact List.prefix_append _ _

theorem Goes.endsWithLine (h : Goes host b bytes c) : EndsWithLine host b c :=
  .pending h.pending h.takenSince_begins (by rw [h.takenSince_eq, h.no_end])

/-- A line that has room does not fill the buffer before it ends. -/
theorem Goes.has_room (h : Goes host b bytes c) (hroom : RoomForLine host b) : c.readbuf.length < bodySize := by
  by_contra hfull
  have hlen : bodySize - b.readbuf.length ≤ bytes.length := by
    rw [h.readbuf, List.length_append] at hfull
    omega
  have hahead : bytes.length ≤ (b.ahead []).length := by
    rw [h.ahead, List.length_append]
    exact Nat.le_add_right _ _
  rcases hroom with hshort | hend
  · omega
  · rw [h.ahead, List.take_append_of_le_length hlen] at hend
    have hnone : lineEnd host b (bytes.take (bodySize - b.readbuf.length)) = none := by
      have hall : lineEnd host b (bytes.take (bodySize - b.readbuf.length) ++ bytes.drop (bodySize - b.readbuf.length)) =
          none := by
        rw [List.take_append_drop, h.no_end]
      exact lineEnd_of_append hall
    rw [hnone] at hend
    exact absurd hend Bool.false_ne_true

theorem Looks.endsWithLine (h : Looks host b c) (hroom : RoomForLine host b) :
    (∃ bytes, Goes host b bytes c) ∨ c.pending = .none ∧ EndsWithLine host b c := by
  cases h with
  | waits h => exact .inl ⟨_, h⟩
  | ended h =>
    obtain ⟨hdone, line, lf, ts, e, hts, hbytes, hlf, hline, hend⟩ := h
    exact .inr ⟨hdone, .ended hdone ((takenSince_append hts).trans hbytes) hlf hline hend⟩
  | @eof bytes d h hconsumed hdone heof =>
    have htaken : takenSince b c = takenSince b d := by rw [takenSince, takenSince, hconsumed]
    refine .inr ⟨hdone, .eof hdone heof ?_ ?_⟩
    · rw [htaken]
      exact h.takenSince_begins
    · rw [htaken, h.takenSince_eq, h.no_end]
  | full h hfull => exact absurd (h.has_room hroom) (Nat.not_lt.mpr hfull)

/-- With room the request ends with the line. -/
theorem everyState_endsWithLine (hroom : RoomForLine host b) (calls : List InputCall) :
    EveryState (look host m) (EndsWithLine host b) b calls := by
  have hprop (c : PipeBridge δ) (hc : (∃ bytes, Goes host b bytes c) ∨ c.pending = .none ∧ EndsWithLine host b c) :
      EndsWithLine host b c := by
    rcases hc with ⟨bytes, hgoes⟩ | ⟨-, hends⟩
    · exact hgoes.endsWithLine
    · exact hends
  refine everyState_of_invariant hprop (fun c call c' hc hlook => ?_) calls (.inl ⟨[], goes_seeing b b.vtIn.seen⟩)
  obtain ⟨hpending, hlooks⟩ := look_looks hlook
  rcases hc with ⟨bytes, hgoes⟩ | ⟨hdone, -⟩
  · exact (hgoes.looks hlooks).endsWithLine hroom
  · rw [hdone] at hpending
    cases hpending

/-! ## No room -/

/-- Bytes are there for each read, and no end is among those that there is room for. -/
structure Pasted (host : Host δ) (b : PipeBridge δ) : Prop where
  enough : bodySize - b.readbuf.length ≤ (b.ahead []).length
  no_end : lineEnd host b ((b.ahead []).take (bodySize - b.readbuf.length)) = none
  seen : ∃ k, bodySize - b.readbuf.length ≤ k ∧ b.vtIn.seen = List.replicate k { count := bodySize }

theorem readAvailableVtInput_seen (b : PipeBridge δ) : b.readAvailableVtInput.2.vtIn.seen = b.vtIn.seen ∨
    b.readAvailableVtInput.2.vtIn.seen = b.vtIn.seen.tail := by
  have hseen (room : Nat) : (b.vtIn.readAvailable room).2.seen = b.vtIn.seen.tail := by
    unfold VtIn.readAvailable
    dsimp only
    split_ifs <;> rfl
  unfold readAvailableVtInput
  dsimp only
  split_ifs
  · exact .inl rfl
  · exact .inl rfl
  · have htail := hseen (b.readLimit - b.readbuf.length)
    generalize b.vtIn.readAvailable (b.readLimit - b.readbuf.length) = r at htail ⊢
    obtain ⟨status, vtIn⟩ := r
    cases status <;> exact .inr htail

/-- A read finds a byte, and takes at most one entry of what the calls find. -/
theorem Pasted.found (h : Pasted host b) (hp : b.pending = .consoleRead m) (hroom : b.readbuf.length < bodySize) :
    ∃ chunk c, chunk ≠ [] ∧ b.readAvailableVtInput = (.bytes, c) ∧ Found b chunk c ∧
      ∃ k, bodySize - c.readbuf.length ≤ k ∧ c.vtIn.seen = List.replicate k { count := bodySize } := by
  obtain ⟨k, hk, hseen⟩ := h.seen
  obtain ⟨k, rfl⟩ : ∃ k', k = k' + 1 := ⟨k - 1, by omega⟩
  have hpipe (hq : b.queuedVtInput = []) : b.vtIn.bytes ≠ [] ∧ b.vtIn.current.count ≠ 0 := by
    constructor
    · intro hnil
      have henough := h.enough
      rw [ahead, hq, hnil, List.append_nil, List.append_nil, List.length_nil] at henough
      omega
    · rw [VtIn.current, hseen]
      exact Nat.succ_ne_zero _
  obtain ⟨hstatus, hlen⟩ := readAvailableVtInput_bytes (readLimit_consoleRead hp) hroom hpipe
  obtain ⟨chunk, hfound, -⟩ := readAvailableVtInput_found b
  refine ⟨chunk, b.readAvailableVtInput.2, ?_, Prod.ext hstatus rfl, hfound, ?_⟩
  · rintro rfl
    rw [hfound.readbuf, List.append_nil] at hlen
    exact Nat.lt_irrefl _ hlen
  · rcases readAvailableVtInput_seen b with heq | heq
    · exact ⟨k + 1, by omega, heq.trans hseen⟩
    · exact ⟨k, by omega, heq.trans (congrArg List.tail hseen)⟩

/-- The loop goes on to the end of the room, and completes the request there. -/
theorem Pasted.accumulateLoop : ∀ (n : Nat) {b : PipeBridge δ}, Pasted host b → b.pending = .consoleRead m →
    bodySize - b.readbuf.length < n → ∃ bytes d, Goes host b bytes d ∧
      (accumulateLoop host n b).2.consumed = d.consumed ∧
      (accumulateLoop host n b).2.pending = .none ∧ (accumulateLoop host n b).2.vtEof = b.vtEof
  | 0, _, _, _, hn => absurd hn (Nat.not_lt_zero _)
  | n + 1, b, h, hp, hn => by
    rw [PipeBridge.accumulateLoop]
    by_cases hroom : b.readbuf.length < bodySize
    · obtain ⟨chunk, c, hne, hread, hfound, k, hk, hseen⟩ := h.found hp hroom
      have hlen : chunk.length ≤ bodySize - b.readbuf.length := readLimit_consoleRead hp ▸ hfound.room
      have hpos : 0 < chunk.length := List.length_pos_iff.mpr hne
      rw [hread]
      dsimp only
      rcases hfound.processed hp _ rfl with ⟨hgoes, hline, hv, -⟩ | ⟨hended, -⟩
      · rw [hline, if_neg Bool.false_ne_true]
        generalize c.processNewVtInput host b.readbuf.length = d at hgoes hv ⊢
        have hbuf : d.readbuf.length = b.readbuf.length + chunk.length := by rw [hgoes.readbuf, List.length_append]
        have hnext : Pasted host d := by
          have henough := h.enough
          have hnone := h.no_end
          rw [hgoes.ahead, List.length_append] at henough
          rw [hgoes.ahead, List.take_append, List.take_of_length_le hlen, hgoes.scan] at hnone
          refine ⟨by omega, ?_, k, ?_, hv ▸ hseen⟩
          · rw [hbuf, ← Nat.sub_sub]
            exact hnone
          · rw [hbuf, ← List.length_append, ← hfound.readbuf]
            exact hk
        obtain ⟨bytes, e, he, hconsumed, hdone, heof⟩ := hnext.accumulateLoop n (hgoes.pending.trans hp) (by omega)
        exact ⟨chunk ++ bytes, e, hgoes.append he, hconsumed, hdone, heof.trans hgoes.vtEof⟩
      · obtain ⟨-, line, lf, ts, e, -, -, -, hline, hend⟩ := hended
        obtain ⟨later, hlater⟩ :=
          List.prefix_take_iff.mpr ⟨hline.trans hfound.chunk_begins, hline.length_le.trans hlen⟩
        have hnone := h.no_end
        rw [← hlater] at hnone
        exact absurd (hend.symm.trans (lineEnd_of_append hnone)) (Option.some_ne_none _)
    · have hread : b.readAvailableVtInput = (.full, b) := by
        unfold readAvailableVtInput
        dsimp only
        rw [readLimit_consoleRead hp, if_pos (by omega)]
      obtain ⟨hdone, hconsumed, heof⟩ := completePending_consoleRead hp
      rw [hread]
      exact ⟨[], b, goes_seeing b b.vtIn.seen, hconsumed, hdone, heof⟩

/-- A request that is complete with neither an end nor the end of the input. -/
theorem Goes.not_endsWithLine (h : Goes host b bytes d) (hp : b.pending = .consoleRead m)
    (hconsumed : c.consumed = d.consumed) (hdone : c.pending = .none) (heof : c.vtEof = false) :
    ¬ EndsWithLine host b c := by
  have htaken : takenSince b c = bytes := by rw [← h.takenSince_eq, takenSince, takenSince, hconsumed]
  intro hends
  cases hends with
  | pending hpending =>
    rw [hdone, hp] at hpending
    cases hpending
  | @ended line lf e _ hline _ _ hend =>
    have hsome := lineEnd_append hend lf
    rw [← hline, htaken, h.no_end] at hsome
    exact absurd hsome.symm (Option.some_ne_none _)
  | eof _ heof' =>
    rw [heof] at heof'
    exact absurd heof' Bool.false_ne_true

/-- Without room the request does not end with the line if all of its input has arrived. -/
theorem not_everyState_endsWithLine (hp : b.pending = .consoleRead m) (heof : b.vtEof = false)
    (hroom : ¬ RoomForLine host b) :
    ¬ EveryState (look host m) (EndsWithLine host b) b
      [.accumulate (List.replicate (bodySize + 1) { count := bodySize })] := by
  obtain ⟨henough, hnone⟩ := not_or.mp hroom
  intro h
  have hpasted : Pasted host (b.seeing (List.replicate (bodySize + 1) { count := bodySize })) := by
    refine ⟨Nat.not_lt.mp henough, ?_, bodySize + 1, by omega, rfl⟩
    exact Option.not_isSome_iff_eq_none.mp hnone
  obtain ⟨bytes, d, hgoes, hconsumed, hdone, heof'⟩ := hpasted.accumulateLoop (bodySize + 1) hp (by omega)
  have hends := h.2 _ (if_pos hp)
  exact ((goes_seeing b _).append hgoes).not_endsWithLine hp hconsumed hdone (heof'.trans heof) hends

/-! ## The request -/

/-- A line read that is pending, with its input, ends with its line in every run if and only if its line has room. -/
theorem read_ends_with_line_iff (hp : b.pending = .consoleRead m) (heof : b.vtEof = false) :
    (∀ calls, EveryState (look host m) (EndsWithLine host b) b calls) ↔ RoomForLine host b := by
  refine ⟨fun h => ?_, everyState_endsWithLine⟩
  by_contra hroom
  exact not_everyState_endsWithLine hp heof hroom (h _)

/-- `a`, CR. -/
theorem read_ends_with_line_iff_typed :
    let b : PipeBridge Unit := { utf8Decoder := (), pending := .consoleRead 0, vtIn := { bytes := [0x61, 0x0D] } }
    ∀ calls, EveryState (look IoLoop.asciiHost 0) (EndsWithLine IoLoop.asciiHost b) b calls :=
  (read_ends_with_line_iff rfl rfl).mpr (.inl (by decide))

/-- As many letters as `_readbuf` holds come before the CR. -/
theorem read_ends_before_line :
    let b : PipeBridge Unit :=
      { utf8Decoder := (), pending := .consoleRead 0, vtIn := { bytes := List.replicate bodySize 0x61 ++ [0x0D] } }
    ¬ ∀ calls, EveryState (look IoLoop.asciiHost 0) (EndsWithLine IoLoop.asciiHost b) b calls := by
  intro b h
  refine not_everyState_endsWithLine rfl rfl (not_or.mpr ⟨?_, ?_⟩) (h _)
  · rw [show b.ahead [] = List.replicate bodySize 0x61 ++ [0x0D] from rfl, List.length_append, List.length_replicate]
    exact Nat.not_lt.mpr (Nat.le_trans (Nat.sub_le _ _) (Nat.le_add_right _ _))
  · have htake : (b.ahead []).take (bodySize - b.readbuf.length) = List.replicate bodySize 0x61 :=
      List.take_left' List.length_replicate
    have hnone (n : Nat) : lineEnd IoLoop.asciiHost b (List.replicate n 0x61) = none := IoLoop.firstEnd_letters _ n
    rw [htake, hnone]
    exact Bool.false_ne_true

end PipeBridge

end Corehost
