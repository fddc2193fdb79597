import Corehost.Input.Events

/-!
# Line ends

A byte ends a line when the parser says so: `scanByte` follows the decoder and
the parser only, and tells which bytes can end a read. `ByteStep` says all that
the body of `process_input` does with a byte, in terms of `scanByte`:

* `go`: the byte is taken and the loop goes on;
* `ended`: the byte ends the pending read, and what follows it is queued;
* `events`: a line ends while no read is pending.

`processByte_step`: every byte makes such a step.
-/

namespace Corehost

/-- What can end a read. -/
inductive LineEnd where
  /-- Ctrl+C or Ctrl+Break. -/
  | ctrlEvent
  | ctrlZ
  | carriageReturn
  | lineFeed
  /-- Enter as a Win32 key. -/
  | enterKey
deriving DecidableEq, Repr

/-- The ends at which `process_input` stops while a request of this kind is pending. -/
def LineEnd.stops (kind : PendingKind) : LineEnd → Bool
  | .ctrlEvent => kind = .consoleRead || kind = .rawRead
  | .enterKey => kind = .consoleRead
  | _ => true

/-- The state in which bytes become messages. -/
structure Scanner (δ : Type) where
  utf8Decoder : δ
  inputParser : VtParser

/-- The end that a message of the parser is. -/
def messageEnd (mode : Nat) (parsed : VtParseResult) : Option LineEnd :=
  if modifiedF1ToF4 parsed.rawSequence ≠ .continue_ then none
  else
    match parsed.id with
    | .carriageReturn => some .carriageReturn
    | .lineFeed => some .lineFeed
    | .win32InputKey =>
      if PipeBridge.isCtrlKey (PipeBridge.win32KeyOf parsed.message) mode then some .ctrlEvent
      else if (PipeBridge.win32KeyOf parsed.message).keyDown ∧ (PipeBridge.win32KeyOf parsed.message).vk = VK_RETURN then
        some .enterKey
      else none
    | _ => none

section

variable {δ : Type} (host : Host δ)

/-- The end that a byte is, and the next state. -/
def scanByte (mode : Nat) (controlZ : Bool) (σ : Scanner δ) (byte : UInt8) : Option LineEnd × Scanner δ :=
  if byte = 0x03 ∧ hasFlag mode ENABLE_PROCESSED_INPUT ∧ σ.inputParser.inGround then (some .ctrlEvent, σ)
  else if controlZ ∧ byte = 0x1A then (some .ctrlZ, σ)
  else
    match host.utf8StreamDecoder σ.utf8Decoder byte with
    | (none, d) => (none, { σ with utf8Decoder := d })
    | (some ch, d) =>
      let (parsed, p) := σ.inputParser.parse [ch]
      if parsed.id = .continueText then (none, ⟨d, p.reset⟩)
      else if parsed.id = .continue_ then (none, ⟨d, p⟩)
      else (messageEnd mode parsed, ⟨d, p.reset⟩)

variable {host} in
theorem scanByte_decoded {mode : Nat} {controlZ : Bool} {σ : Scanner δ} {byte : UInt8}
    (hctrl : ¬(byte = 0x03 ∧ hasFlag mode ENABLE_PROCESSED_INPUT ∧ σ.inputParser.inGround))
    (hz : ¬(controlZ ∧ byte = 0x1A)) :
    scanByte host mode controlZ σ byte =
      match host.utf8StreamDecoder σ.utf8Decoder byte with
      | (none, d) => (none, { σ with utf8Decoder := d })
      | (some ch, d) =>
        if (σ.inputParser.parse [ch]).1.id = .continueText then (none, ⟨d, (σ.inputParser.parse [ch]).2.reset⟩)
        else if (σ.inputParser.parse [ch]).1.id = .continue_ then (none, ⟨d, (σ.inputParser.parse [ch]).2⟩)
        else (messageEnd mode (σ.inputParser.parse [ch]).1, ⟨d, (σ.inputParser.parse [ch]).2.reset⟩) := by
  rw [scanByte, if_neg hctrl, if_neg hz]

/-- The first of the ends `stops` in a chunk, and what follows it. -/
def firstEnd (mode : Nat) (controlZ : Bool) (stops : LineEnd → Bool) (σ : Scanner δ) :
    List UInt8 → Option (LineEnd × List UInt8)
  | [] => none
  | byte :: rest =>
    match (scanByte host mode controlZ σ byte).1.filter stops with
    | some e => some (e, rest)
    | none => firstEnd mode controlZ stops (scanByte host mode controlZ σ byte).2 rest

end

namespace PipeBridge

variable {δ : Type}

def scanner (b : PipeBridge δ) : Scanner δ := ⟨b.utf8Decoder, b.inputParser⟩

def scan (host : Host δ) (b : PipeBridge δ) (byte : UInt8) : Option LineEnd × Scanner δ :=
  scanByte host b.inputMode b.processControlZ b.scanner byte

/-- The buffer of the pending raw read or line read. -/
def reading (b : PipeBridge δ) : Option MsgRef :=
  match b.pending with
  | .rawRead m => some m
  | .consoleRead m => some m
  | _ => none

/-- The byte is taken, and the decoder and the parser have seen it. -/
def advance (b : PipeBridge δ) (byte : UInt8) (lineEnd : Option UInt8) (σ : Scanner δ) : PipeBridge δ :=
  { b.take byte lineEnd with utf8Decoder := σ.utf8Decoder, inputParser := σ.inputParser }

/-- What `_on_line_terminator` does with the LF of a CR: `rest` follows the line end. -/
inductive TakesLf (b : PipeBridge δ) (lineEnd : Option UInt8) (pos : Nat) (rest : List UInt8) :
    PipeBridge δ → Nat → List UInt8 → Prop
  | none {vtIn : VtIn} (hin : vtIn.bytes = b.vtIn.bytes)
    (hno : lineEnd = some 0x0D → rest.head? ≠ some 0x0A ∧
      (rest = [] → b.vtIn.current.count = 0 ∨ b.vtIn.bytes.head? ≠ some 0x0A)) :
    TakesLf b lineEnd pos rest { b with vtIn } pos rest
  | chunk {rest' : List UInt8} (hrest : rest = 0x0A :: rest') :
    TakesLf b lineEnd pos rest (b.take 0x0A) (pos + 1) rest'
  | pipe {vtIn : VtIn} {readbuf : List UInt8} (hrest : rest = []) (hin : b.vtIn.bytes = 0x0A :: vtIn.bytes)
    (hend : lineEnd = some 0x0D) (hcount : b.vtIn.current.count ≠ 0)
    (hbuf : readbuf = b.readbuf ++ [0x0A] ∨ bodySize ≤ b.readbuf.length ∧ readbuf = b.readbuf) :
    TakesLf b lineEnd pos rest ({ b with vtIn, readbuf }.take 0x0A) pos []

/-- The completion of the pending read in `m`, with `readbuf` as the bytes of a raw read. -/
inductive Completes (b : PipeBridge δ) (m : MsgRef) (readbuf : List UInt8) : Nat → CompletionData → Prop
  | alerted : Completes b m readbuf statusAlerted .empty
  | raw (h : b.pending = .rawRead m) :
    Completes b m readbuf statusSuccess (.raw (rawReadData readbuf (b.msgs m).rawReadCapacity))
  | console {data : CompletionData} (h : b.pending = .consoleRead m) : Completes b m readbuf statusSuccess data

inductive ByteStep (host : Host δ) (b : PipeBridge δ) (byte : UInt8) (pos : Nat) (rest : List UInt8) :
    Bool × PipeBridge δ → Prop
  | go {c : PipeBridge δ} {found : Bool} (hstop : (b.scan host byte).1.filter (LineEnd.stops b.pendingKind) = none)
    (hfound : found = b.lineFound ∨ (b.scan host byte).1 = some .enterKey)
    (h : Emits { b.advance byte none (b.scan host byte).2 with lineFound := found } c) :
    ByteStep host b byte pos rest (false, c)
  | ended {c : PipeBridge δ} {m : MsgRef} {e : LineEnd} {σ : Scanner δ} {lineEnd : Option UInt8} {pos' : Nat} {rest' : List UInt8}
    {status : Nat} {data : CompletionData}
    (hend : (b.scan host byte).1 = some e) (hstop : e.stops b.pendingKind)
    (hcr : e = .carriageReturn ∨ lineEnd ≠ some 0x0D)
    (hm : b.reading = some m) (hlf : TakesLf (b.advance byte lineEnd σ) lineEnd pos rest c pos' rest')
    (hdata : Completes c m (if rest' = [] then c.readbuf else c.readbuf.take pos') status data)
    (inp : List InputRecord) (line : CookedLine) (inputParser : VtParser) (readAborted : Bool) :
    ByteStep host b byte pos rest (true, { c.finish m status data with
      readbuf := [], queuedVtInput := rest' ++ c.queuedVtInput, lineFound := true, readAborted, inp, line, inputParser })
  | events {b' c d : PipeBridge δ} {e : LineEnd} {σ : Scanner δ} {lineEnd : Option UInt8} {pos' : Nat}
    {rest' readbuf : List UInt8} {inputParser : VtParser}
    (hend : (b.scan host byte).1 = some e) (hstop : e.stops b.pendingKind)
    (hcr : e = .carriageReturn ∨ lineEnd ≠ some 0x0D)
    (hm : b.reading = none) (h : Emits (b.advance byte lineEnd σ) b')
    (hlf : TakesLf b' lineEnd pos rest c pos' rest') (h' : Emits c d) (hpending : d.pending = .none) :
    ByteStep host b byte pos rest (true, { d with
      readbuf, queuedVtInput := rest' ++ c.queuedVtInput, lineFound := true, inputParser })

/-! ## Completions -/

variable {host : Host δ} {b b' c d : PipeBridge δ} {m : MsgRef}

theorem reading_cases (hm : b.reading = some m) : b.pending = .rawRead m ∨ b.pending = .consoleRead m := by
  unfold reading at hm
  split at hm
  · rename_i h
    cases hm
    exact .inl h
  · rename_i h
    cases hm
    exact .inr h
  · cases hm

theorem reading_none (hm : b.reading = none) : b.pending = .none ∨ ∃ m, b.pending = .consoleInput m := by
  unfold reading at hm
  split at hm
  · cases hm
  · cases hm
  · rename_i h1 h2
    cases h : b.pending with
    | none => exact .inl rfl
    | rawRead m => exact absurd h (h1 m)
    | consoleRead m => exact absurd h (h2 m)
    | consoleInput m => exact .inr ⟨m, rfl⟩

/-- A read that is pending is not ended by key events, and none is started. -/
theorem Emits.reading_eq (h : Emits b c) : c.reading = b.reading := by
  cases h with
  | edit => rfl
  | complete inp line inherit sync h data =>
    rw [finish_eq, reading, reading, h]

theorem pendingKind_reading (hm : b.reading = some m) : b.pendingKind = .consoleRead ∨ b.pendingKind = .rawRead := by
  rcases reading_cases hm with h | h
  · exact .inr (by rw [pendingKind, h]; rfl)
  · exact .inl (by rw [pendingKind, h]; rfl)

theorem pendingKind_not_reading (hm : b.reading = none) : b.pendingKind ≠ .consoleRead ∧ b.pendingKind ≠ .rawRead := by
  rcases reading_none hm with h | ⟨m, h⟩
  · rw [pendingKind, h]
    decide
  · rw [pendingKind, h]
    exact ⟨nofun, nofun⟩

theorem completePending_reading (hm : b.reading = some m) :
    ∃ status data line, Completes b m b.readbuf status data ∧ (b.readAborted = true → status = statusAlerted) ∧
      b.completePending = { b.finish m status data with
        readbuf := [], line, inputParser := { b.inputParser with raw := [] } } := by
  rcases reading_cases hm with h | h
  · simp only [completePending, h]
    split
    · exact ⟨_, _, _, .alerted, fun _ => rfl, by rw [finish_eq]; rfl⟩
    · rename_i ha
      exact ⟨_, _, _, .raw h, fun h => absurd h ha, by rw [finish_eq]; rfl⟩
  · simp only [completePending, h]
    split
    · exact ⟨_, _, _, .alerted, fun _ => rfl, by rw [finish_eq]; rfl⟩
    · rename_i ha
      split
      · exact ⟨_, _, _, .console h, fun h => absurd h ha, by rw [finish_eq]; rfl⟩
      · exact ⟨_, _, _, .console h, fun h => absurd h ha, by rw [finish_eq]; rfl⟩

theorem completePending_not_reading (hm : b.reading = none) :
    Emits b b.completePending ∧ b.completePending.pending = .none := by
  rcases reading_none hm with h | ⟨m, h⟩
  · have e : b.completePending = b := by
      unfold completePending
      rw [h]
    rw [e]
    exact ⟨.refl b, h⟩
  · have e : b.completePending = b.completePendingConsoleInput := by
      unfold completePending
      rw [h]
    rw [e]
    refine ⟨emits_completePendingConsoleInput, ?_⟩
    unfold completePendingConsoleInput
    rw [h]
    dsimp only
    split <;> rw [finish_pending]

theorem queueUnprocessedVtInput_eq (pos : Nat) (rest : List UInt8) :
    b.queueUnprocessedVtInput pos rest = { b with
      queuedVtInput := rest ++ b.queuedVtInput
      readbuf := if rest = [] then b.readbuf else b.readbuf.take pos } := by
  unfold queueUnprocessedVtInput
  by_cases h : rest = []
  · rw [if_pos h, if_pos h, h]
    rfl
  · rw [if_neg h, if_neg h]

theorem finishLineTerminator_reading (hm : b.reading = some m) (pos : Nat) (rest : List UInt8) :
    ∃ status data line inputParser,
      Completes b m (if rest = [] then b.readbuf else b.readbuf.take pos) status data ∧
      b.finishLineTerminator pos rest = { b.finish m status data with
        readbuf := [], queuedVtInput := rest ++ b.queuedVtInput, lineFound := true, line, inputParser } := by
  rw [finishLineTerminator, queueUnprocessedVtInput_eq]
  obtain ⟨status, data, line, hdata, -, he⟩ := completePending_reading (b := { b with
    lineFound := true
    queuedVtInput := rest ++ b.queuedVtInput
    readbuf := if rest = [] then b.readbuf else b.readbuf.take pos }) hm
  refine ⟨status, data, line, { b.inputParser with raw := [] }, ?_, ?_⟩
  · cases hdata with
    | alerted => exact .alerted
    | raw h => exact .raw h
    | console h => exact .console h
  · refine he.trans ?_
    rw [finish_eq, finish_eq]
    rfl

theorem finishLineTerminator_not_reading (hm : b.reading = none) (pos : Nat) (rest : List UInt8) :
    ∃ d readbuf, Emits b d ∧ d.pending = .none ∧ b.finishLineTerminator pos rest = { d with
      readbuf, queuedVtInput := rest ++ b.queuedVtInput, lineFound := true } := by
  rw [finishLineTerminator, queueUnprocessedVtInput_eq]
  obtain ⟨h, hp⟩ := completePending_not_reading (b := { b with
    lineFound := true
    queuedVtInput := rest ++ b.queuedVtInput
    readbuf := if rest = [] then b.readbuf else b.readbuf.take pos }) hm
  have hs := h.same
  have hd := h.overlay b.inputParser b.lineFound b.readbuf b.queuedVtInput
  generalize completePending _ = d at hp hs hd ⊢
  refine ⟨_, if rest = [] then b.readbuf else b.readbuf.take pos, hd, hp, ?_⟩
  obtain ⟨-, h1, -, h2, h3, -, h4, -, -, -, -, -⟩ := hs
  cases d
  cases h1
  cases h2
  cases h3
  cases h4
  rfl

/-- `try_consume_byte` finds the LF when it is next and has arrived. -/
theorem tryConsumeByte_cases (v : VtIn) (expected : UInt8) :
    ((v.tryConsumeByte expected).1 = true ∧ v.current.count ≠ 0 ∧
        v.bytes = expected :: (v.tryConsumeByte expected).2.bytes) ∨
      ((v.tryConsumeByte expected).1 = false ∧ (v.current.count = 0 ∨ v.bytes.head? ≠ some expected) ∧
        (v.tryConsumeByte expected).2.bytes = v.bytes) := by
  unfold VtIn.tryConsumeByte
  split
  · rename_i h
    refine .inl ⟨rfl, h.1, ?_⟩
    obtain ⟨tail, ht⟩ := List.head?_eq_some_iff.mp h.2
    rw [ht]
    rfl
  · rename_i h
    rw [not_and_or, not_not] at h
    exact .inr ⟨rfl, h, rfl⟩

theorem onLineTerminator_takesLf (b : PipeBridge δ) (byte : UInt8) (pos : Nat) (rest : List UInt8) :
    ∃ c pos' rest', TakesLf b (some byte) pos rest c pos' rest' ∧
      b.onLineTerminator byte pos rest = c.finishLineTerminator pos' rest' := by
  unfold onLineTerminator
  split
  · rename_i hb
    split
    · exact ⟨_, _, _, .chunk rfl, rfl⟩
    · rcases tryConsumeByte_cases b.vtIn 0x0A with ⟨h, hcount, hbytes⟩ | ⟨h, hno, hbytes⟩
      · dsimp only
        rw [h, if_pos rfl]
        split
        · exact ⟨_, _, _, .pipe rfl hbytes (by rw [hb]) hcount (.inl rfl), rfl⟩
        · rename_i hlen
          exact ⟨_, _, _, .pipe rfl hbytes (by rw [hb]) hcount (.inr ⟨by omega, rfl⟩), rfl⟩
      · dsimp only
        rw [h, if_neg Bool.false_ne_true]
        exact ⟨_, _, _, .none hbytes fun _ => ⟨nofun, fun _ => hno⟩, rfl⟩
    · rename_i h1 h2
      refine ⟨_, _, _, .none rfl fun _ => ⟨?_, fun h => absurd h h2⟩, rfl⟩
      intro h
      obtain ⟨tail, ht⟩ := List.head?_eq_some_iff.mp h
      exact h1 tail ht
  · rename_i hb
    exact ⟨b, pos, rest, .none rfl fun h => absurd (Option.some.inj h) hb, rfl⟩

/-! ## The body of process_input -/

/-- A line ends: the pending read is completed, or there is none. -/
theorem finishLineTerminator_step {byte : UInt8} {σ : Scanner δ} {lineEnd : Option UInt8}
    {pos pos' : Nat} {rest rest' : List UInt8}
    {e : LineEnd} (hend : (b.scan host byte).1 = some e) (hstop : e.stops b.pendingKind)
    (hcr : e = .carriageReturn ∨ lineEnd ≠ some 0x0D) (h : Emits (b.advance byte lineEnd σ) b')
    (hb : b.reading ≠ none → b' = b.advance byte lineEnd σ)
    (hlf : TakesLf b' lineEnd pos rest c pos' rest') (inputParser : VtParser) :
    ByteStep host b byte pos rest (true, { c.finishLineTerminator pos' rest' with inputParser }) := by
  cases hm : b.reading with
  | some m =>
    rw [hb (by rw [hm]; nofun)] at hlf
    have hc : c.reading = some m := by
      cases hlf <;> exact hm
    obtain ⟨status, data, line, p, hdata, hd⟩ := finishLineTerminator_reading hc pos' rest'
    rw [hd]
    have hstep := ByteStep.ended hend hstop hcr hm hlf hdata c.inp line inputParser c.readAborted
    rw [finish_eq] at hstep ⊢
    exact hstep
  | none =>
    have hb' : b'.reading = none := h.reading_eq.trans hm
    have hc : c.reading = none := by
      cases hlf <;> exact hb'
    obtain ⟨d, readbuf, hd, hp, hde⟩ := finishLineTerminator_not_reading hc pos' rest'
    rw [hde]
    exact .events (d := d) hend hstop hcr hm h hlf hd hp

/-- A byte that ends the read at once, and sends what follows to the queue. -/
theorem interrupt_step {byte : UInt8} {pos : Nat} {rest : List UInt8} {e : LineEnd} {a : Bool} (a' : Bool)
    (hend : (b.scan host byte).1 = some e) (hstop : e.stops b.pendingKind) (hm : b.reading = some m)
    (hraw : b.pending = .rawRead m → a = true) (inp : List InputRecord) (p p' : VtParser) :
    ByteStep host b byte pos rest (true,
      { { completePending { b.advance byte none (b.scan host byte).2 with
            inp := inp, inputParser := p, lineFound := true, readAborted := a } with
          readAborted := a' }.queueUnprocessedVtInput pos rest with inputParser := p' }) := by
  obtain ⟨status, data, line, hdata, ha, he⟩ := completePending_reading (m := m) (b := { b.advance byte none
    (b.scan host byte).2 with inp := inp, inputParser := p, lineFound := true, readAborted := a }) hm
  have hlf : TakesLf (b.advance byte none (b.scan host byte).2) none pos rest _ pos rest := .none rfl nofun
  have hd : Completes (b.advance byte none (b.scan host byte).2) m
      (if rest = [] then b.readbuf else b.readbuf.take pos) status data := by
    cases hdata with
    | alerted => exact .alerted
    | raw h => exact absurd (ha (hraw h)) (by decide)
    | console h => exact .console h
  have hcr : e = .carriageReturn ∨ (none : Option UInt8) ≠ some 0x0D := .inr nofun
  rw [he, queueUnprocessedVtInput_eq, finish_eq]
  dsimp only
  rw [List.take_nil, ite_self]
  have hstep := ByteStep.ended hend hstop hcr hm hlf hd inp line p' a'
  rw [finish_eq] at hstep
  exact hstep

theorem onCtrlEvent_reading (hm : b.reading = some m) (ctrlBreak : Bool) :
    b.onCtrlEvent ctrlBreak = (true, { completePending { b with
      inp := if ctrlBreak then [] else b.inp, lineFound := true, readAborted := true } with readAborted := false }) := by
  cases ctrlBreak <;> exact if_pos (pendingKind_reading hm)

theorem onCtrlEvent_not_reading (hm : b.reading = none) (ctrlBreak : Bool) :
    b.onCtrlEvent ctrlBreak = (false, { b with inp := if ctrlBreak then [] else b.inp }) := by
  have hkind := not_or.mpr (pendingKind_not_reading hm)
  cases ctrlBreak <;> exact if_neg hkind

theorem exists_ite {ι α : Type*} {f : ι → α} {P : Prop} [Decidable P] {x y : α} (hx : ∃ i, x = f i)
    (hy : ∃ i, y = f i) : ∃ i, (if P then x else y) = f i := by
  split
  · exact hx
  · exact hy

theorem editKeyEventForConsoleRead_enter {key : KeyEvent} (hdown : key.keyDown = true)
    (hvk : key.virtualKeyCode = VK_RETURN) : b.editKeyEventForConsoleRead key = (true, b.editSubmitLine) := by
  rw [editKeyEventForConsoleRead, if_neg (by rw [hdown]; decide), if_pos hvk]

theorem editKeyEventForConsoleRead_other {key : KeyEvent}
    (h : ¬(key.keyDown = true ∧ key.virtualKeyCode = VK_RETURN)) :
    ∃ line, b.editKeyEventForConsoleRead key = (false, { b with line }) := by
  by_cases hdown : key.keyDown = false
  · rw [editKeyEventForConsoleRead, if_pos hdown]
    exact ⟨b.line, rfl⟩
  · rw [editKeyEventForConsoleRead, if_neg hdown, if_neg fun hvk => h ⟨by simpa using hdown, hvk⟩]
    repeat' apply exists_ite
    all_goals exact ⟨_, rfl⟩

/-- A message that ends nothing: key events, and then the reset of the parser. -/
theorem go_reset {byte : UInt8} {pos : Nat} {rest : List UInt8} {p : VtParser} {found : Bool}
    (hp : (b.scan host byte).2.inputParser = p.reset)
    (hstop : (b.scan host byte).1.filter (LineEnd.stops b.pendingKind) = none)
    (hfound : found = b.lineFound ∨ (b.scan host byte).1 = some .enterKey)
    (h : Emits { b.advance byte none (b.scan host byte).2 with inputParser := p, lineFound := found } c) :
    ByteStep host b byte pos rest (false, { c with inputParser := c.inputParser.reset }) := by
  have h' := h.overlay (b.scan host byte).2.inputParser found b.readbuf b.queuedVtInput
  obtain ⟨-, h1, -, h2, h3, -, h4, -, -, -, -, -⟩ := h.same
  have hc : { c with inputParser := c.inputParser.reset } =
      { c with inputParser := p.reset, lineFound := found, readbuf := b.readbuf, queuedVtInput := b.queuedVtInput } := by
    cases c
    cases h1
    cases h2
    cases h3
    cases h4
    rfl
  rw [hc, ← hp]
  exact .go hstop hfound h'

/-- The Win32 keys; `p` is the parser before its reset. -/
theorem processInputWin32Key_step {byte : UInt8} {pos : Nat} {rest : List UInt8} {msg : VtMessage} {p : VtParser}
    (hend : (b.scan host byte).1 =
      if isCtrlKey (win32KeyOf msg) b.inputMode then some .ctrlEvent
      else if (win32KeyOf msg).keyDown ∧ (win32KeyOf msg).vk = VK_RETURN then some .enterKey
      else none)
    (hp : (b.scan host byte).2.inputParser = p.reset)
    (hb : b' = { b.advance byte none (b.scan host byte).2 with inputParser := p }) :
    ByteStep host b byte pos rest ((b'.processInputWin32Key b.pendingKind msg pos rest).1,
      { (b'.processInputWin32Key b.pendingKind msg pos rest).2 with
        inputParser := (b'.processInputWin32Key b.pendingKind msg pos rest).2.inputParser.reset }) := by
  have hmode : b'.inputMode = b.inputMode := by rw [hb]; rfl
  unfold processInputWin32Key
  rw [hmode]
  dsimp only
  by_cases hctrl : isCtrlKey (win32KeyOf msg) b.inputMode = true
  · rw [if_pos hctrl] at hend ⊢
    cases hm : b.reading with
    | some m =>
      have hstop : LineEnd.ctrlEvent.stops b.pendingKind = true := by
        rcases pendingKind_reading hm with h | h <;> rw [h] <;> rfl
      have hm' : b'.reading = some m := by rw [hb]; exact hm
      rw [onCtrlEvent_reading hm', hb]
      exact interrupt_step false hend hstop hm (fun _ => rfl) _ p _
    | none =>
      have hstop : LineEnd.ctrlEvent.stops b.pendingKind = false := by
        have hkind := pendingKind_not_reading hm
        simp [LineEnd.stops, hkind]
      have hm' : b'.reading = none := by rw [hb]; exact hm
      rw [onCtrlEvent_not_reading hm', hb]
      exact go_reset hp (by rw [hend]; simp [hstop]) (.inl rfl) (emits_inp _)
  · rw [if_neg hctrl] at hend ⊢
    by_cases hkind : b.pendingKind = .consoleRead
    · rw [if_pos hkind]
      by_cases hdown : (win32KeyOf msg).keyDown = false
      · rw [if_neg (by simp [hdown])] at hend
        rw [if_pos hdown, hb]
        exact go_reset hp (by rw [hend]; rfl) (.inl rfl) (.refl _)
      · rw [if_neg hdown]
        by_cases hvk : (win32KeyOf msg).vk = VK_RETURN
        · rw [if_pos ⟨by simpa using hdown, hvk⟩] at hend
          have hstop : LineEnd.enterKey.stops b.pendingKind = true := by rw [hkind]; rfl
          obtain ⟨m, hm⟩ : ∃ m, b.pending = .consoleRead m := by
            cases h : b.pending <;> simp [pendingKind, h, Pending.kind] at hkind ⊢
          have hread : b.reading = some m := by rw [reading, hm]
          rw [editKeyEventForConsoleRead_enter rfl hvk, editSubmitLine, hb]
          exact interrupt_step _ hend hstop hread (fun h => by rw [hm] at h; cases h) b.inp p _
        · rw [if_neg (by simp [hvk])] at hend
          have hkey : ¬((win32EditKey (win32KeyOf msg)).keyDown = true ∧
            (win32EditKey (win32KeyOf msg)).virtualKeyCode = VK_RETURN) := fun h => hvk h.2
          obtain ⟨line, hl⟩ := editKeyEventForConsoleRead_other (b := b') hkey
          rw [hl, hb]
          exact go_reset hp (by rw [hend]; rfl) (.inl rfl) (emits_line _)
    · rw [if_neg hkind]
      have hemit : ∀ b' : PipeBridge δ,
          Emits b' (if b.pendingKind ≠ .rawRead then b'.emitRecord (.key (win32KeyEvent (win32KeyOf msg))) else b') := by
        intro b'
        split
        · exact emits_emitRecord _
        · exact .refl _
      by_cases henter : (win32KeyOf msg).keyDown = true ∧ (win32KeyOf msg).vk = VK_RETURN
      · have hstop : LineEnd.enterKey.stops b.pendingKind = false := by simp [LineEnd.stops, hkind]
        rw [if_pos henter] at hend ⊢
        rw [hb]
        exact go_reset hp (by rw [hend]; simp [hstop]) (.inr hend) (hemit _)
      · rw [if_neg henter] at hend ⊢
        rw [hb]
        exact go_reset hp (by rw [hend]; rfl) (.inl rfl) (hemit _)

/-! ## Every byte -/

theorem modifiedF1ToF4_not_end (seq : List Char32) : isLineEndId (modifiedF1ToF4 seq) = false := by
  unfold modifiedF1ToF4
  split
  · split
    · rfl
    · split <;> rfl
  · rfl

theorem messageEnd_of_not_end {mode : Nat} {parsed : VtParseResult}
    (h : modifiedF1ToF4 parsed.rawSequence ≠ .continue_ ∨ isLineEndId parsed.id = false) :
    messageEnd mode parsed = none := by
  unfold messageEnd
  split
  · rfl
  · rename_i hf
    have hid := h.resolve_left hf
    split
    · rename_i hc
      rw [hc] at hid
      cases hid
    · rename_i hc
      rw [hc] at hid
      cases hid
    · rename_i hc
      rw [hc] at hid
      cases hid
    · rfl

theorem lineEndOf_not_end {id : VtMessageId} (h : isLineEndId id = false) : lineEndOf id = none := by
  unfold lineEndOf
  split
  · cases h
  · cases h
  · rfl

theorem isDecodedKey_not_end {id : VtMessageId} (h : isDecodedKey id = true) : isLineEndId id = false := by
  revert h
  cases id <;> decide

/-- The three messages that can end a line; `p` is the parser before its reset. -/
theorem handleLineEnd_step {byte : UInt8} {pos : Nat} {rest : List UInt8} {id : VtMessageId} {parsed : VtParseResult}
    {p : VtParser}
    (hend : (b.scan host byte).1 =
      match id with
      | .carriageReturn => some .carriageReturn
      | .lineFeed => some .lineFeed
      | .win32InputKey =>
        if isCtrlKey (win32KeyOf parsed.message) b.inputMode then some .ctrlEvent
        else if (win32KeyOf parsed.message).keyDown ∧ (win32KeyOf parsed.message).vk = VK_RETURN then some .enterKey
        else none
      | _ => none)
    (hid : isLineEndId id = true) (hp : (b.scan host byte).2.inputParser = p.reset)
    (hb : b' = { b.advance byte (lineEndOf id) (b.scan host byte).2 with inputParser := p }) :
    ByteStep host b byte pos rest ((b'.handleMessage host id parsed pos rest).1,
      { (b'.handleMessage host id parsed pos rest).2 with
        inputParser := (b'.handleMessage host id parsed pos rest).2.inputParser.reset }) := by
  have hkind : b'.pendingKind = b.pendingKind := by rw [hb]; rfl
  have hevents : ∀ f : PipeBridge δ → PipeBridge δ, b.reading ≠ none →
      (if b'.pendingKind ≠ .consoleRead ∧ b'.pendingKind ≠ .rawRead then f b' else b') = b' := by
    intro f hm
    rw [hkind]
    cases h : b.reading with
    | none => exact absurd h hm
    | some m => rcases pendingKind_reading h with h | h <;> rw [h] <;> rfl
  have hadv : b.advance byte (lineEndOf id) ⟨(b.scan host byte).2.utf8Decoder, p⟩ = b' := hb.symm
  have hemits : ∀ f : PipeBridge δ → PipeBridge δ, Emits b' (f b') →
      Emits (b.advance byte (lineEndOf id) ⟨(b.scan host byte).2.utf8Decoder, p⟩)
        (if b'.pendingKind ≠ .consoleRead ∧ b'.pendingKind ≠ .rawRead then f b' else b') := by
    intro f hf
    rw [hadv]
    split
    · exact hf
    · exact .refl b'
  cases id
  case carriageReturn =>
    obtain ⟨c, pos', rest', hlf, he⟩ := onLineTerminator_takesLf
      (if b'.pendingKind ≠ .consoleRead ∧ b'.pendingKind ≠ .rawRead then b'.inputEnter host else b') 0x0D pos rest
    have hfin := finishLineTerminator_step hend rfl (.inl rfl) (hemits _ (emits_emitKey _ _ 0))
      (fun h => (hevents _ h).trans hb) hlf
    dsimp only [handleMessage]
    rw [he]
    exact hfin _
  case lineFeed =>
    obtain ⟨c, pos', rest', hlf, he⟩ := onLineTerminator_takesLf
      (if b'.pendingKind ≠ .consoleRead ∧ b'.pendingKind ≠ .rawRead then b'.inputPrintable host 0x0A else b') 0x0A pos
      rest
    have hcr : LineEnd.lineFeed = .carriageReturn ∨ lineEndOf .lineFeed ≠ some 0x0D := .inr (by decide)
    have hfin := finishLineTerminator_step hend rfl hcr (hemits (fun b => b.inputPrintable host 0x0A)
      (emits_inputPrintable 0x0A)) (fun h => (hevents (fun b => b.inputPrintable host 0x0A) h).trans hb) hlf
    dsimp only [handleMessage]
    rw [he]
    exact hfin _
  case win32InputKey =>
    dsimp only [handleMessage]
    rw [hkind]
    exact processInputWin32Key_step hend hp hb
  all_goals cases hid

/-- What a code point does that the decoder has completed. -/
theorem processChar_step {byte : UInt8} {pos : Nat} {rest : List UInt8} {ch : Char32} {d : δ}
    (hctrl : ¬(byte = 0x03 ∧ hasFlag b.inputMode ENABLE_PROCESSED_INPUT ∧ b.inputParser.inGround))
    (hz : ¬(b.processControlZ ∧ byte = 0x1A)) (hd : host.utf8StreamDecoder b.utf8Decoder byte = (some ch, d)) :
    ByteStep host b byte pos rest (processChar host { b with utf8Decoder := d } ch byte pos rest) := by
  have hscan : b.scan host byte =
      if (b.inputParser.parse [ch]).1.id = .continueText then (none, ⟨d, (b.inputParser.parse [ch]).2.reset⟩)
      else if (b.inputParser.parse [ch]).1.id = .continue_ then (none, ⟨d, (b.inputParser.parse [ch]).2⟩)
      else (messageEnd b.inputMode (b.inputParser.parse [ch]).1, ⟨d, (b.inputParser.parse [ch]).2.reset⟩) := by
    refine (scanByte_decoded hctrl hz).trans ?_
    dsimp only [scanner]
    rw [hd]
    rfl
  unfold processChar
  generalize b.inputParser.parse [ch] = r at hscan ⊢
  obtain ⟨parsed, p⟩ := r
  dsimp only at hscan ⊢
  by_cases htext : parsed.id = .continueText
  · rw [if_pos htext] at hscan ⊢
    have hb : take { b with utf8Decoder := d, inputParser := p } byte =
        { b.advance byte none (b.scan host byte).2 with inputParser := p, lineFound := b.lineFound } := by
      rw [hscan]
      rfl
    refine go_reset (p := p) (by rw [hscan]) (by rw [hscan]; rfl) (.inl rfl) ?_
    rw [hb]
    split
    · exact emits_line _
    · split
      · exact emits_inputPrintable ch
      · exact .refl _
  · rw [if_neg htext] at hscan ⊢
    by_cases hcont : parsed.id = .continue_
    · rw [if_pos hcont] at hscan ⊢
      refine .go (by rw [hscan]; rfl) (.inl rfl) ?_
      rw [hscan]
      exact .refl _
    · rw [if_neg hcont] at hscan ⊢
      have hb : ∀ lineEnd, take { b with utf8Decoder := d, inputParser := p } byte lineEnd =
          { b.advance byte lineEnd (b.scan host byte).2 with inputParser := p, lineFound := b.lineFound } := by
        rw [hscan]
        exact fun _ => rfl
      have hp : (b.scan host byte).2.inputParser = p.reset := by rw [hscan]
      have hexp : ({ b with utf8Decoder := d, inputParser := p } : PipeBridge δ).expectingCprReply = b.expectingCprReply :=
        rfl
      have hkind : ({ b with utf8Decoder := d, inputParser := p } : PipeBridge δ).pendingKind = b.pendingKind := rfl
      rw [hexp, hkind]
      generalize hid : (if modifiedF1ToF4 parsed.rawSequence ≠ .continue_ ∧
        (parsed.id ≠ .cprResponse ∨ b.expectingCprReply = false) then modifiedF1ToF4 parsed.rawSequence
        else parsed.id) = id
      rw [hb]
      have hf : modifiedF1ToF4 parsed.rawSequence ≠ .continue_ → isLineEndId id = false := by
        intro hf
        rw [← hid]
        split
        · exact modifiedF1ToF4_not_end _
        · rename_i h
          have hcpr : parsed.id = .cprResponse := by
            by_contra hne
            exact h ⟨hf, .inl hne⟩
          rw [hcpr]
          rfl
      by_cases hend : isLineEndId id = true
      · have hf' : modifiedF1ToF4 parsed.rawSequence = .continue_ := by
          by_contra hne
          rw [hf hne] at hend
          cases hend
        rw [if_neg (fun h => h.1 hf')] at hid
        have hdec : ∀ P : Prop, ¬(isDecodedKey id = true ∧ P) := fun P h => by
          rw [isDecodedKey_not_end h.1] at hend
          cases hend
        rw [if_neg (hdec _)]
        have hscan' : (b.scan host byte).1 = messageEnd b.inputMode parsed := by rw [hscan]
        rw [messageEnd, if_neg (not_not.mpr hf'), hid] at hscan'
        exact handleLineEnd_step hscan' hend hp rfl
      · have hnot : isLineEndId id = false := by simpa using hend
        have hnone : (b.scan host byte).1 = none := by
          rw [hscan]
          refine messageEnd_of_not_end ?_
          by_cases hf' : modifiedF1ToF4 parsed.rawSequence = .continue_
          · rw [if_neg (fun h => h.1 hf')] at hid
            exact .inr (by rw [hid]; exact hnot)
          · exact .inl hf'
        rw [lineEndOf_not_end hnot]
        have hgo : ∀ {c : PipeBridge δ}, Emits { b.advance byte none (b.scan host byte).2 with
            inputParser := p, lineFound := b.lineFound } c →
            ByteStep host b byte pos rest (false, { c with inputParser := c.inputParser.reset }) :=
          go_reset hp (by rw [hnone]; rfl) (.inl rfl)
        split
        · exact hgo (emits_emitRawSequenceAsInput _)
        · obtain ⟨h1, h2⟩ := @emits_handleMessage _ host { b.advance byte none (b.scan host byte).2 with
            inputParser := p, lineFound := b.lineFound } _ hnot parsed pos rest
          rw [h1]
          exact hgo h2

theorem processByte_step (host : Host δ) (b : PipeBridge δ) (byte : UInt8) (pos : Nat) (rest : List UInt8) :
    ByteStep host b byte pos rest (b.processByte host byte pos rest) := by
  unfold processByte
  by_cases hctrl : byte = 0x03 ∧ hasFlag b.inputMode ENABLE_PROCESSED_INPUT ∧ b.inputParser.inGround
  · have hscan : b.scan host byte = (some .ctrlEvent, b.scanner) := by
      unfold scan scanByte
      exact if_pos hctrl
    have hb : b.take byte = b.advance byte none (b.scan host byte).2 := by rw [hscan]; rfl
    rw [if_pos hctrl, hb]
    cases hm : b.reading with
    | some m =>
      have hstop : LineEnd.ctrlEvent.stops b.pendingKind = true := by
        rcases pendingKind_reading hm with h | h <;> rw [h] <;> rfl
      have hm' : (b.advance byte none (b.scan host byte).2).reading = some m := hm
      rw [onCtrlEvent_reading hm']
      exact interrupt_step false (by rw [hscan]) hstop hm (fun _ => rfl) _ _ _
    | none =>
      have hstop : LineEnd.ctrlEvent.stops b.pendingKind = false := by
        have hkind := pendingKind_not_reading hm
        simp [LineEnd.stops, hkind]
      have hm' : (b.advance byte none (b.scan host byte).2).reading = none := hm
      rw [onCtrlEvent_not_reading hm']
      exact .go (by rw [hscan]; simp [hstop]) (.inl rfl) (emits_inp _)
  · rw [if_neg hctrl]
    by_cases hz : b.processControlZ ∧ byte = 0x1A
    · have hscan : b.scan host byte = (some .ctrlZ, b.scanner) := by
        unfold scan scanByte
        exact (if_neg hctrl).trans (if_pos hz)
      have hb : b.take byte = b.advance byte none (b.scan host byte).2 := by rw [hscan]; rfl
      rw [if_pos hz, hb]
      have hend : (b.scan host byte).1 = some .ctrlZ := by rw [hscan]
      have hlf : TakesLf (b.advance byte none (b.scan host byte).2) none pos rest _ pos rest := .none rfl nofun
      have hcr : LineEnd.ctrlZ = .carriageReturn ∨ (none : Option UInt8) ≠ some 0x0D := .inr nofun
      exact finishLineTerminator_step hend rfl hcr (.refl _) (fun _ => rfl) hlf _
    · rw [if_neg hz]
      split
      · rename_i d hd
        have hscan : b.scan host byte = (none, { b.scanner with utf8Decoder := d }) := by
          refine (scanByte_decoded hctrl hz).trans ?_
          dsimp only [scanner]
          rw [hd]
        refine .go (by rw [hscan]; rfl) (.inl rfl) ?_
        rw [hscan]
        exact .refl _
      · rename_i ch d hd
        exact processChar_step hctrl hz hd

end PipeBridge

end Corehost
