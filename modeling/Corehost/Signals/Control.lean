import Corehost.Lib.LittleEndian
import Corehost.Lib.Pipe

/-!
# Signals of the host

After a session was handed over, the terminal tells the process that started it
what to ask of the window manager: the model of `console_control_forwarder`
(`defterm/signal.cpp`). A message is a code, the size of a record and the
record, whose first field is that size. What a newer terminal puts behind the
fields that are known here is skipped.

* `consumes_pollControl_iff`: what `poll` reads as a message;
* `poll_forwards_iff`: a poll returns exactly when the pipe holds such messages,
  and then it has forwarded them;
* `signals_forwarded`: in any order of the writes and the reads.
-/

namespace Corehost

open Lib Lib.Poller

/-! ## The model -/

/-- The values of `CONSOLECONTROL` that a terminal sends. -/
inductive HostCode where
  | notifyConsoleApplication
  | setForeground
  | endTask
deriving DecidableEq, Repr

/-- `static_cast<CONSOLECONTROL>(code)`. -/
def HostCode.ofByte : Nat → Option HostCode
  | 1 => some .notifyConsoleApplication
  | 5 => some .setForeground
  | 7 => some .endTask
  | _ => none

def HostCode.byte : HostCode → UInt8
  | .notifyConsoleApplication => 1
  | .setForeground => 5
  | .endTask => 7

/-- The sizes of the records. -/
def HostCode.recordSize : HostCode → Nat
  | .notifyConsoleApplication => 8
  | .setForeground => 12
  | .endTask => 16

/-- `min_payload_for`. -/
def minPayloadFor (code : Nat) : Nat := ((HostCode.ofByte code).map HostCode.recordSize).getD 0

variable {α : Type}

/-- The loop over the tail of a record, with the buffer `sink`. -/
def skipExtra (a : α) (extra : Nat) : Reads UInt8 (Option α) :=
  if extra = 0 then .done (some a)
  else
    let want := min extra 256
    .read want fun skip => if skip.length ≠ want then .done none else skipExtra a (extra - want)
termination_by extra
decreasing_by omega

/-- The reads of `poll` for a message, which is its code and the record up to the
fields that are known. -/
def pollControl : Reads UInt8 (Option (Nat × List UInt8)) :=
  .read 1 fun codeByte =>
    let code := leNat codeByte
    let minPayload := minPayloadFor code
    if minPayload = 0 then .done none
    else .read 4 fun size =>
      if size.length ≠ 4 then .done none
      else
        let dwSize := leNat size
        if dwSize < minPayload then .done none
        else
          let bodyLen := minPayload - 4
          .read bodyLen fun body =>
            if body.length ≠ bodyLen then .done none
            else skipExtra (code, leBytes 4 dwSize ++ body) (dwSize - minPayload)

/-- A call of `ConsoleControl`. -/
inductive ConsoleControlCall where
  | notifyConsoleApplication (processId flags : Nat)
  | endTask (processId eventCode ctrlFlags : Nat)
deriving DecidableEq, Repr

/-- The field at byte `i` of a record. -/
def recordField (data : List UInt8) (i : Nat) : Nat := leNat ((data.drop i).take 4)

/-- What `poll` does with a message. -/
def forwardControl (calls : List ConsoleControlCall) (message : Nat × List UInt8) : List ConsoleControlCall :=
  match HostCode.ofByte message.1 with
  | some .notifyConsoleApplication => calls ++ [.notifyConsoleApplication (recordField message.2 4) 1]
  | some .setForeground => calls
  | some .endTask => calls ++ [.endTask (recordField message.2 4) (recordField message.2 8) (recordField message.2 12)]
  | none => calls

/-! ## Messages -/

/-- A record of a known kind, with what stands behind its fields. -/
structure HostSignal where
  code : HostCode
  body : List UInt8
  tail : List UInt8
  length_body : body.length = code.recordSize - 4
  fits : code.recordSize + tail.length < 2 ^ 32

namespace HostSignal

variable (m : HostSignal)

def dwSize : Nat := m.code.recordSize + m.tail.length

def encode : List UInt8 := m.code.byte :: leBytes 4 m.dwSize ++ m.body ++ m.tail

theorem encode_ne_nil : m.encode ≠ [] := fun h => absurd h (List.cons_ne_nil m.code.byte (leBytes 4 m.dwSize ++ m.body ++ m.tail))

/-- The code and the record without its tail. -/
def message : Nat × List UInt8 := (m.code.byte.toNat, leBytes 4 m.dwSize ++ m.body)

/-- What the message asks for. -/
def calls : List ConsoleControlCall :=
  match m.code with
  | .notifyConsoleApplication => [.notifyConsoleApplication (recordField m.body 0) 1]
  | .setForeground => []
  | .endTask => [.endTask (recordField m.body 0) (recordField m.body 4) (recordField m.body 8)]

end HostSignal

theorem HostCode.ofByte_byte (code : HostCode) : HostCode.ofByte code.byte.toNat = some code := by
  cases code <;> rfl

theorem HostCode.byte_of_ofByte {n : Nat} {code : HostCode} (h : HostCode.ofByte n = some code) : code.byte.toNat = n := by
  unfold HostCode.ofByte at h
  split at h
  · rw [← Option.some_inj.mp h]; rfl
  · rw [← Option.some_inj.mp h]; rfl
  · rw [← Option.some_inj.mp h]; rfl
  · exact absurd h.symm (Option.some_ne_none _)

/-- What a message asks for is forwarded, and its tail does not matter. -/
theorem forwardControl_message (calls : List ConsoleControlCall) (m : HostSignal) :
    forwardControl calls m.message = calls ++ m.calls := by
  have hfield (i : Nat) : recordField (leBytes 4 m.dwSize ++ m.body) (4 + i) = recordField m.body i := by
    unfold recordField
    rw [← List.drop_drop, List.drop_left' (length_leBytes ..)]
  unfold forwardControl HostSignal.message HostSignal.calls
  dsimp only
  rw [m.code.ofByte_byte]
  cases m.code with
  | notifyConsoleApplication => exact congrArg (fun p => calls ++ [.notifyConsoleApplication p 1]) (hfield 0)
  | setForeground => exact (List.append_nil calls).symm
  | endTask =>
    dsimp only
    rw [← hfield 0, ← hfield 4, ← hfield 8]

/-! ## What is read as a message -/

theorem consumes_skipExtra (a : α) (extra : Nat) : ∀ {c : List UInt8} {b : Option α},
    Consumes (skipExtra a extra) c b ↔ c.length = extra ∧ b = some a := by
  induction extra using Nat.strongRecOn with
  | ind extra ih =>
    intro c b
    unfold skipExtra
    by_cases hzero : extra = 0
    · rw [if_pos hzero, hzero]
      exact ⟨fun ⟨hc, hb⟩ => ⟨by rw [hc]; rfl, hb.symm⟩, fun ⟨hc, hb⟩ => ⟨List.length_eq_zero_iff.mp hc, hb.symm⟩⟩
    · rw [if_neg hzero, consumes_exact, ih _ (by omega), List.length_drop]
      exact ⟨fun ⟨_, _, hc, hb⟩ => ⟨by omega, hb⟩, fun ⟨hc, hb⟩ => ⟨by omega, by omega, by omega, hb⟩⟩

theorem strict_skipExtra (a : α) (extra : Nat) : Strict (skipExtra a extra) := by
  induction extra using Nat.strongRecOn with
  | ind extra ih =>
    unfold skipExtra
    by_cases hzero : extra = 0
    · rw [if_pos hzero]
      trivial
    · rw [if_neg hzero]
      exact strict_exact (by omega) fun _ _ => ih _ (by omega)

/-- A known code has a record of more than the size in front of it. -/
theorem minPayloadFor_pos {n : Nat} (h : minPayloadFor n ≠ 0) :
    ∃ code, HostCode.ofByte n = some code ∧ minPayloadFor n = code.recordSize ∧ 4 < code.recordSize := by
  unfold minPayloadFor at h ⊢
  cases hcode : HostCode.ofByte n with
  | none => exact absurd (by rw [hcode]; rfl) h
  | some code => exact ⟨code, rfl, rfl, by cases code <;> decide⟩

theorem strict_pollControl : Strict pollControl := by
  refine ⟨by decide, fun bs hbs => ?_, fun bs _ => ?_⟩
  · rw [List.length_eq_zero_iff.mp (by omega : bs.length = 0)]
    rfl
  · dsimp only
    split
    · trivial
    · rename_i hknown
      obtain ⟨code, -, hsize, hlt⟩ := minPayloadFor_pos hknown
      refine strict_exact (by decide) fun size _ => ?_
      split
      · trivial
      · exact strict_exact (by omega) fun body _ => strict_skipExtra ..

/-- `poll` reads the bytes of the messages as messages, and nothing else. -/
theorem consumes_pollControl_iff {c : List UInt8} {a : Nat × List UInt8} :
    Consumes pollControl c (some a) ↔ ∃ m : HostSignal, c = m.encode ∧ a = m.message := by
  constructor
  · intro h
    obtain ⟨-, hle, h⟩ := h
    obtain ⟨b, c, rfl⟩ := List.exists_cons_of_length_pos (by omega : 0 < c.length)
    have hcode : leNat ((b :: c).take 1) = b.toNat := by simp [leNat]
    dsimp only at h
    rw [hcode, List.drop_one, List.tail_cons] at h
    by_cases hzero : minPayloadFor b.toNat = 0
    · rw [if_pos hzero] at h
      exact absurd h.2 (by simp)
    rw [if_neg hzero, consumes_exact] at h
    obtain ⟨code, hof, hmin, hlt⟩ := minPayloadFor_pos hzero
    have hbyte : code.byte = b := UInt8.toNat_inj.mp (HostCode.byte_of_ofByte hof)
    obtain ⟨-, hle4, h⟩ := h
    by_cases hsmall : leNat (c.take 4) < minPayloadFor b.toNat
    · rw [if_pos hsmall] at h
      exact absurd h.2 (by simp)
    rw [if_neg hsmall, consumes_exact, consumes_skipExtra] at h
    obtain ⟨-, hbody, htail, ha⟩ := h
    rw [hmin] at hsmall hbody htail ha
    have hsize : leNat (c.take 4) < 2 ^ 32 := by
      have := leNat_lt (c.take 4)
      rwa [List.length_take, Nat.min_eq_left hle4] at this
    have hlen4 : (c.take 4).length = 4 := List.length_take_of_le hle4
    have hdw : code.recordSize + ((c.drop 4).drop (code.recordSize - 4)).length = leNat (c.take 4) := by omega
    refine ⟨⟨code, (c.drop 4).take (code.recordSize - 4), (c.drop 4).drop (code.recordSize - 4), List.length_take_of_le hbody,
      by omega⟩, ?_, ?_⟩
    · have hword : leBytes 4 (leNat (c.take 4)) = c.take 4 := by
        have := leBytes_leNat (c.take 4)
        rwa [hlen4] at this
      simp only [HostSignal.encode, HostSignal.dwSize, hdw, hword, hbyte]
      rw [List.cons_append, List.cons_append, List.append_assoc, List.take_append_drop, List.take_append_drop]
    · simp only [HostSignal.message, HostSignal.dwSize, hdw]
      rw [Option.some_inj.mp ha, hbyte]
  · rintro ⟨m, rfl, rfl⟩
    have hlt : 4 < m.code.recordSize := by cases m.code <;> decide
    have hmin : minPayloadFor m.code.byte.toNat = m.code.recordSize := by rw [minPayloadFor, m.code.ofByte_byte]; rfl
    have hdw : leNat (leBytes 4 m.dwSize) = m.dwSize := leNat_leBytes_of_lt m.fits
    have hfits : m.dwSize = m.code.recordSize + m.tail.length := rfl
    have hskip : Consumes (skipExtra m.message (m.dwSize - m.code.recordSize)) m.tail (some m.message) :=
      (consumes_skipExtra ..).mpr ⟨by omega, rfl⟩
    have hcode : leNat [m.code.byte] = m.code.byte.toNat := rfl
    change Consumes _ ([m.code.byte] ++ (leBytes 4 m.dwSize ++ m.body ++ m.tail)) _
    refine consumes_read rfl (by decide) ?_
    dsimp only
    rw [hcode, hmin, if_neg (by omega), List.append_assoc]
    refine consumes_read (length_leBytes ..) (by decide) ?_
    rw [if_neg (not_not.mpr (length_leBytes ..)), hdw, if_neg (by omega)]
    refine consumes_read m.length_body (by omega) ?_
    rw [if_neg (not_not.mpr m.length_body)]
    exact hskip

/-! ## The poll -/

theorem frames_pollControl_iff {c : List UInt8} {as : List (Nat × List UInt8)} :
    Frames pollControl c as ↔ ∃ ms : List HostSignal, c = ms.flatMap HostSignal.encode ∧ as = ms.map HostSignal.message := by
  constructor
  · intro h
    induction h with
    | nil => exact ⟨[], rfl, rfl⟩
    | cons hne hfront hrest ih =>
      obtain ⟨m, rfl, rfl⟩ := consumes_pollControl_iff.mp hfront
      obtain ⟨ms, rfl, rfl⟩ := ih
      exact ⟨m :: ms, rfl, rfl⟩
  · rintro ⟨ms, rfl, rfl⟩
    induction ms with
    | nil => exact .nil
    | cons m ms ih => exact .cons m.encode_ne_nil (consumes_pollControl_iff.mpr ⟨m, rfl, rfl⟩) ih

theorem foldl_forwardControl (ms : List HostSignal) : ∀ calls : List ConsoleControlCall,
    (ms.map HostSignal.message).foldl forwardControl calls = calls ++ ms.flatMap HostSignal.calls := by
  induction ms with
  | nil => exact fun calls => (List.append_nil calls).symm
  | cons m ms ih =>
    intro calls
    rw [List.map_cons, List.foldl_cons, forwardControl_message, ih, List.flatMap_cons, List.append_assoc]

/-- The forwarder, with the calls of `ConsoleControl` that it has made. -/
abbrev ControlForwarder := Poller UInt8 HostSignal (Nat × List UInt8) (List ConsoleControlCall)

/-- A poll of a pipe that nobody writes to returns exactly when the pipe holds
messages of known kinds, one after the other, and then it has made the calls that
they ask for. -/
theorem poll_forwards_iff {s : ControlForwarder} (hpc : s.pc = .peek) (hw : s.writer = true) (calls : List ConsoleControlCall) :
    (∃ n s', s.advances forwardControl pollControl n = some s' ∧ s'.pc = .returned false ∧ s'.state = calls) ↔
      ∃ ms : List HostSignal, s.pipe = ms.flatMap HostSignal.encode ∧ calls = s.state ++ ms.flatMap HostSignal.calls := by
  have hread : ∀ a, pollControl ≠ .done a := fun a h => by unfold pollControl at h; simp at h
  have hdrains (s' : ControlForwarder) : ((∃ n, s.advances forwardControl pollControl n = some s') ∧ s'.pc = .returned false) ↔
      ∃ as, Frames pollControl s.pipe as ∧ s' = s.drained forwardControl as := drains_iff strict_pollControl hread hpc hw
  constructor
  · rintro ⟨n, s', hn, hs', rfl⟩
    obtain ⟨as, hframes, rfl⟩ := (hdrains s').mp ⟨⟨n, hn⟩, hs'⟩
    obtain ⟨ms, hpipe, rfl⟩ := frames_pollControl_iff.mp hframes
    exact ⟨ms, hpipe, foldl_forwardControl ms s.state⟩
  · rintro ⟨ms, hpipe, rfl⟩
    obtain ⟨⟨n, hn⟩, hs'⟩ := (hdrains _).mpr ⟨_, frames_pollControl_iff.mpr ⟨ms, hpipe, rfl⟩, rfl⟩
    exact ⟨n, _, hn, hs', foldl_forwardControl ms s.state⟩

/-- CTRL_C_EVENT for process 42, with a record that is longer by one byte. -/
theorem poll_forwards_iff_end_task :
    ∃ n s', Poller.advances forwardControl pollControl n
      ({ state := [], pc := .peek, pipe := [7, 17, 0, 0, 0, 42, 0, 0, 0, 0, 0, 0, 0, 2, 0, 0, 0, 9] } : ControlForwarder) = some s' ∧
      s'.pc = .returned false ∧ s'.state = [.endTask 42 0 2] :=
  (poll_forwards_iff rfl rfl _).mpr ⟨[⟨.endTask, [42, 0, 0, 0, 0, 0, 0, 0, 2, 0, 0, 0], [9], rfl, by decide⟩], rfl, rfl⟩

/-- The signal pipe between the terminal and the forwarder. -/
def controlWire : Wire UInt8 HostSignal (Nat × List UInt8) where
  encode := HostSignal.encode
  decode := HostSignal.message
  program := pollControl
  consumes m := consumes_pollControl_iff.mpr ⟨m, rfl, rfl⟩
  nonempty := HostSignal.encode_ne_nil

/-- In any order of the writes of the terminal and of the reads, every message is
forwarded once, in the order of the writes. -/
theorem signals_forwarded (events : List (PollerEvent HostSignal Empty)) :
    EveryState (Poller.step controlWire forwardControl fun calls _ => calls)
      (fun s => ∃ done, s.InOrder controlWire done ∧ s.state = done.flatMap HostSignal.calls)
      ({ state := [] } : ControlForwarder) events := by
  refine Poller.everyState_inOrder (J := fun ms calls => calls = ms.flatMap HostSignal.calls) (fun ms m calls h => ?_)
    (fun _ _ _ h => h) rfl events
  rw [h, List.flatMap_append, List.flatMap_singleton]
  exact forwardControl_message _ m

end Corehost
