import Corehost.Input.LineEnd
import Mathlib.Data.List.Chain

/-!
# What a chunk of input does

`ChunkRun` is a run of `process_input` over a chunk. What it does to the
requests, to the bytes and to the bytes of a raw read:

* `ChunkRun.settles`: the pending request stays as it is or is completed;
* `ChunkRun.takenBy`: the bytes go to the read that is pending;
* `ChunkRun.delivers`: no byte is lost, repeated or overtaken, and a CR LF ends
  one line, unless the chunk ends between the two (`SafeSplit`);
* `ChunkRun.raw`: a raw read returns the bytes that went to it.
-/

namespace Corehost

/-- The part of the bridge that says which requests are open and which are completed. -/
structure Account where
  pending : Pending
  msgs : MsgRef → IoMsg
  completed : List Completion
  serving : Option MsgRef
  dropped : List Nat

namespace Account

/-- The pending request in `m` is completed: a handler that serves it returns the
completion, otherwise it goes to ConDrv. -/
def finish (a : Account) (m : MsgRef) (completion : Completion) : Account :=
  { a with
    pending := .none
    msgs := Function.update a.msgs m { a.msgs m with complete := some completion }
    completed := if a.serving = some m then a.completed else a.completed ++ [completion] }

/-- `PipeBridge.reader`. -/
def reader (a : Account) : Option Nat :=
  match a.pending with
  | .rawRead m => some (a.msgs m).identifier
  | .consoleRead m => some (a.msgs m).identifier
  | _ => none

/-- Nothing happens to the requests, or the pending one is completed. -/
inductive Settles (a : Account) : Account → Prop
  | same : Settles a a
  | done {m : MsgRef} {completion : Completion} (hm : a.pending.request? = some m)
    (hid : completion.identifier = (a.msgs m).identifier) : Settles a (a.finish m completion)

theorem Settles.trans {a a' a'' : Account} (h : Settles a a') (h' : Settles a' a'') : Settles a a'' := by
  cases h with
  | same => exact h'
  | done hm hid =>
    cases h' with
    | same => exact .done hm hid
    | done hm' hid' => cases hm'

theorem Settles.reader_eq {a a' : Account} (h : Settles a a') : a'.reader = a.reader ∨ a'.reader = none := by
  cases h with
  | same => exact .inl rfl
  | done hm hid => exact .inr rfl

theorem Settles.pending_eq {a a' : Account} (h : Settles a a') : a'.pending = a.pending ∨ a'.pending = .none := by
  cases h with
  | same => exact .inl rfl
  | done hm hid => exact .inr rfl

theorem Settles.of_none {a a' : Account} (h : Settles a a') (hp : a.pending = .none) : a' = a := by
  cases h with
  | same => rfl
  | done hm hid =>
    rw [hp] at hm
    cases hm

end Account

namespace PipeBridge

open Account

variable {δ : Type} {host : Host δ} {b b' c d : PipeBridge δ} {m : MsgRef} {byte : UInt8} {pos pos' : Nat}
  {rest rest' : List UInt8}

def account (b : PipeBridge δ) : Account := ⟨b.pending, b.msgs, b.completed, b.serving, b.dropped⟩

theorem account_finish (m : MsgRef) (status : Nat) (data : CompletionData) :
    (b.finish m status data).account = b.account.finish m (b.completion m status data) := by
  rw [finish_eq]
  rfl

theorem Emits.settles (h : Emits b c) : Settles b.account c.account := by
  cases h with
  | edit => exact .same
  | @complete inp line inherit sync m h data =>
    have hm : b.account.pending.request? = some m := by
      rw [show b.account.pending = .consoleInput m from h]
      rfl
    have hdone : Settles b.account (b.account.finish m (b.completion m statusSuccess data)) := .done hm rfl
    rw [← account_finish] at hdone
    exact hdone

theorem reading_request (hm : b.reading = some m) : b.pending.request? = some m := by
  rcases reading_cases hm with h | h <;> rw [h] <;> rfl

theorem TakesLf.account_eq {lineEnd : Option UInt8} {pos' : Nat} {rest' : List UInt8}
    (h : TakesLf b lineEnd pos rest c pos' rest') : c.account = b.account := by
  cases h <;> rfl

theorem ByteStep.settles {r : Bool × PipeBridge δ} (h : ByteStep host b byte pos rest r) :
    Settles b.account r.2.account := by
  cases h with
  | go hstop hfound h => exact h.settles
  | @ended c m e σ lineEnd pos' rest' status data hend hstop hcr hm hlf hdata inp line inputParser readAborted =>
    have ha : c.account = b.account := hlf.account_eq
    have hdone : Settles c.account (c.account.finish m (c.completion m status data)) :=
      .done (by rw [ha]; exact reading_request hm) rfl
    rw [← account_finish, ha] at hdone
    exact hdone
  | @events b' c d e σ lineEnd pos' rest' readbuf inputParser hend hstop hcr hm h hlf h' hpending =>
    have ha : c.account = b'.account := hlf.account_eq
    have hs : Settles b.account b'.account := h.settles
    rw [← ha] at hs
    exact hs.trans h'.settles

/-! ## The bytes -/

/-- What is still to be read behind `rest`. -/
def ahead (b : PipeBridge δ) (rest : List UInt8) : List UInt8 := rest ++ (b.queuedVtInput ++ b.vtIn.bytes)

/-- The bytes that were taken, and then those that are still to be read. -/
def stream (b : PipeBridge δ) (rest : List UInt8) : List UInt8 :=
  b.consumed.filterMap Taken.byte? ++ b.ahead rest

/-- An LF right after a CR that ended a line ends no other line. -/
def NoSecondEnd (t t' : Taken) : Prop := t.lineEnd = some 0x0D → t'.byte? = some 0x0A → t'.lineEnd = none

instance : DecidableRel NoSecondEnd := fun t t' =>
  inferInstanceAs (Decidable (t.lineEnd = some 0x0D → t'.byte? = some 0x0A → t'.lineEnd = none))

def byteItems (ts : List Taken) : List Taken := ts.filter fun t => t.byte?.isSome

/-- No CR LF has ended two lines so far, and the next byte will not be the LF of
a CR that has ended its line. -/
structure Paired (b : PipeBridge δ) (rest : List UInt8) : Prop where
  chain : (byteItems b.consumed).IsChain NoSecondEnd
  last : ∀ t ∈ (byteItems b.consumed).getLast?, t.lineEnd = some 0x0D → (b.ahead rest).head? ≠ some 0x0A

/-- A CR at the end of a chunk, with `queued` and `vtIn` behind it: its LF is
found when it has arrived and nothing is queued. -/
structure SafeSplit (queued : List UInt8) (vtIn : VtIn) : Prop where
  arrived : queued = [] → vtIn.bytes.head? = some 0x0A → vtIn.current.count ≠ 0
  replayed : queued ≠ [] → queued.head? ≠ some 0x0A
  overtaken : queued ≠ [] → vtIn.bytes.head? = some 0x0A → vtIn.current.count = 0

instance (queued : List UInt8) (vtIn : VtIn) : Decidable (SafeSplit queued vtIn) :=
  decidable_of_iff ((queued = [] → vtIn.bytes.head? = some 0x0A → vtIn.current.count ≠ 0) ∧
      (queued ≠ [] → queued.head? ≠ some 0x0A) ∧
      (queued ≠ [] → vtIn.bytes.head? = some 0x0A → vtIn.current.count = 0))
    ⟨fun ⟨h1, h2, h3⟩ => ⟨h1, h2, h3⟩, fun h => ⟨h.arrived, h.replayed, h.overtaken⟩⟩

@[simp] theorem byteItems_append (ts ts' : List Taken) : byteItems (ts ++ ts') = byteItems ts ++ byteItems ts' :=
  List.filter_append ..

theorem SameInput.ahead_eq (h : SameInput b c) (rest : List UInt8) : c.ahead rest = b.ahead rest := by
  rw [ahead, ahead, h.queuedVtInput, h.vtIn]

theorem SameInput.stream_eq (h : SameInput b c) (rest : List UInt8) : c.stream rest = b.stream rest := by
  rw [stream, stream, h.ahead_eq, h.consumed]

theorem SameInput.paired (h : SameInput b c) (hb : Paired b rest) : Paired c rest := by
  constructor
  · rw [h.consumed]
    exact hb.chain
  · rw [h.consumed, h.ahead_eq]
    exact hb.last

theorem stream_advance {lineEnd : Option UInt8} {σ : Scanner δ} :
    (b.advance byte lineEnd σ).stream rest = b.stream (byte :: rest) := by
  simp [stream, ahead, advance, take, takeItem, Taken.byte?]

theorem chain_concat {ts : List Taken} {t : Taken} (h : ts.IsChain NoSecondEnd)
    (ht : ∀ t' ∈ ts.getLast?, NoSecondEnd t' t) : (ts ++ [t]).IsChain NoSecondEnd := by
  rw [List.isChain_append]
  refine ⟨h, List.isChain_singleton t, ?_⟩
  intro t' ht' y hy
  cases hy
  exact ht t' ht'

/-- A byte that ends no second line. -/
theorem chain_advance {lineEnd : Option UInt8} {σ : Scanner δ} (h : Paired b (byte :: rest)) :
    (byteItems (b.advance byte lineEnd σ).consumed).IsChain NoSecondEnd := by
  have hc : byteItems (b.advance byte lineEnd σ).consumed =
      byteItems b.consumed ++ [{ reader := b.reader, item := .byte byte, mode := b.inputMode, lineEnd }] :=
    byteItems_append ..
  rw [hc]
  refine chain_concat h.chain ?_
  intro t ht hcr hlf
  refine absurd ?_ (h.last t ht hcr)
  cases hlf
  rfl

theorem last_advance (lineEnd : Option UInt8) (σ : Scanner δ) :
    ∀ t ∈ (byteItems (b.advance byte lineEnd σ).consumed).getLast?, t.lineEnd = lineEnd := by
  have hc : byteItems (b.advance byte lineEnd σ).consumed =
      byteItems b.consumed ++ [{ reader := b.reader, item := .byte byte, mode := b.inputMode, lineEnd }] :=
    byteItems_append ..
  rw [hc, List.getLast?_concat]
  intro t ht
  cases ht
  rfl

/-- The LF of a CR goes with it. -/
theorem TakesLf.stream_eq {lineEnd : Option UInt8} {pos' : Nat} {rest' : List UInt8}
    (h : TakesLf b lineEnd pos rest c pos' rest')
    (hsafe : lineEnd = some 0x0D → rest = [] → SafeSplit b.queuedVtInput b.vtIn) : c.stream rest' = b.stream rest := by
  cases h with
  | none hin hno => simp [stream, ahead, hin]
  | chunk hrest => simp [stream, ahead, take, takeItem, hrest, Taken.byte?]
  | @pipe vtIn readbuf hrest hin hend hcount hbuf =>
    have hq : b.queuedVtInput = [] := by
      by_contra hq
      exact hcount ((hsafe hend hrest).overtaken hq (by rw [hin]; rfl))
    simp [stream, ahead, take, takeItem, hrest, hin, hq, Taken.byte?]

theorem TakesLf.paired {lineEnd : Option UInt8} {pos' : Nat} {rest' : List UInt8}
    (h : TakesLf b lineEnd pos rest c pos' rest')
    (hsafe : lineEnd = some 0x0D → rest = [] → SafeSplit b.queuedVtInput b.vtIn)
    (hchain : (byteItems b.consumed).IsChain NoSecondEnd)
    (hlast : ∀ t ∈ (byteItems b.consumed).getLast?, t.lineEnd = lineEnd) : Paired c rest' := by
  have hlf : ∀ d : PipeBridge δ, d.consumed = (b.take 0x0A).consumed → ∀ rest, Paired d rest := by
    intro d hd rest
    have hc : byteItems d.consumed =
        byteItems b.consumed ++ [{ reader := b.reader, item := .byte 0x0A, mode := b.inputMode }] := by
      rw [hd]
      exact byteItems_append ..
    constructor
    · rw [hc]
      exact chain_concat hchain fun t ht hcr hlf => rfl
    · rw [hc, List.getLast?_concat]
      intro t ht hcr
      cases ht
      cases hcr
  cases h with
  | @none vtIn hin hno =>
    refine ⟨hchain, ?_⟩
    intro t ht hcr
    have hend : lineEnd = some 0x0D := (hlast t ht).symm.trans hcr
    obtain ⟨hhead, hpipe⟩ := hno hend
    cases rest with
    | cons byte rest => exact hhead
    | nil =>
      have hs := hsafe hend rfl
      have ha : ahead { b with vtIn } [] = b.queuedVtInput ++ b.vtIn.bytes := by
        rw [ahead, hin]
        rfl
      rw [ha]
      by_cases hq : b.queuedVtInput = []
      · rw [hq, List.nil_append]
        intro hlf
        rcases hpipe rfl with h0 | h0
        · exact hs.arrived hq hlf h0
        · exact h0 hlf
      · rw [List.head?_append_of_ne_nil _ hq]
        exact hs.replayed hq
  | chunk hrest => exact hlf _ rfl _
  | pipe hrest hin hend hcount hbuf =>
    refine hlf _ ?_ _
    rfl

/-- Putting bytes back into the queue. -/
theorem requeue (rest : List UInt8) (hc : d.consumed = c.consumed) (hv : d.vtIn = c.vtIn)
    (hq : d.queuedVtInput = rest ++ c.queuedVtInput) :
    d.stream [] = c.stream rest ∧ (Paired c rest → Paired d []) := by
  have ha : d.ahead [] = c.ahead rest := by simp [ahead, hq, hv]
  refine ⟨by rw [stream, stream, ha, hc], fun h => ⟨?_, ?_⟩⟩
  · rw [hc]
    exact h.chain
  · rw [hc, ha]
    exact h.last

/-- A byte is delivered once, in its turn, and a CR LF ends one line. -/
theorem ByteStep.delivers {r : Bool × PipeBridge δ} (h : ByteStep host b byte pos rest r)
    (hsafe : (b.scan host byte).1 = some .carriageReturn → rest = [] → SafeSplit b.queuedVtInput b.vtIn) :
    r.2.stream (if r.1 then [] else rest) = b.stream (byte :: rest) ∧
      (Paired b (byte :: rest) → Paired r.2 (if r.1 then [] else rest)) := by
  cases h with
  | @go c found hstop hfound h =>
    have hs := h.same
    refine ⟨(hs.stream_eq rest).trans (stream_advance (σ := (b.scan host byte).2)), fun hp => hs.paired ⟨?_, ?_⟩⟩
    · exact chain_advance (σ := (b.scan host byte).2) hp
    · intro t ht hcr
      rw [last_advance none (b.scan host byte).2 t ht] at hcr
      cases hcr
  | @ended c m e σ lineEnd pos' rest' status data hend hstop hcr hm hlf hdata inp line inputParser readAborted =>
    have hsafe' : lineEnd = some 0x0D → rest = [] → SafeSplit b.queuedVtInput b.vtIn := fun hl =>
      hsafe (by rw [hend, hcr.resolve_right fun h => h hl])
    rw [finish_eq]
    obtain ⟨hstream, hpaired⟩ := requeue rest' (c := c) (d := { c.finish m status data with
      readbuf := [], queuedVtInput := rest' ++ c.queuedVtInput, lineFound := true, readAborted, inp, line,
      inputParser }) (by rw [finish_eq]) (by rw [finish_eq]) rfl
    rw [finish_eq] at hstream hpaired
    refine ⟨hstream.trans ((hlf.stream_eq hsafe').trans stream_advance), fun hp => hpaired ?_⟩
    exact hlf.paired hsafe' (chain_advance hp) (last_advance lineEnd σ)
  | @events b' c d e σ lineEnd pos' rest' readbuf inputParser hend hstop hcr hm h hlf h' hpending =>
    have hsafe' : lineEnd = some 0x0D → rest = [] → SafeSplit b'.queuedVtInput b'.vtIn := by
      intro hl hr
      rw [h.same.queuedVtInput, h.same.vtIn]
      exact hsafe (by rw [hend, hcr.resolve_right fun h => h hl]) hr
    obtain ⟨hstream, hpaired⟩ := requeue rest' (c := c) (d := { d with
      readbuf, queuedVtInput := rest' ++ c.queuedVtInput, lineFound := true, inputParser })
      h'.same.consumed h'.same.vtIn rfl
    refine ⟨hstream.trans ?_, fun hp => hpaired ?_⟩
    · rw [hlf.stream_eq hsafe', h.same.stream_eq, stream_advance]
    · refine hlf.paired hsafe' ?_ ?_
      · rw [h.same.consumed]
        exact chain_advance hp
      · rw [h.same.consumed]
        exact last_advance lineEnd σ

/-! ## The readers -/

/-- The bytes that went to the read `id`. -/
def credited (id : Nat) (b : PipeBridge δ) : List UInt8 :=
  (b.consumed.filter fun t => t.reader = some id).filterMap Taken.byte?

/-- What was taken since `b` went to the read that was pending in `b`. -/
def TakenBy (b c : PipeBridge δ) : Prop :=
  ∃ new, c.consumed = b.consumed ++ new ∧ ∀ t ∈ new, t.reader = b.reader ∨ t.reader = none

theorem SameInput.takenBy (h : SameInput b c) : TakenBy b c :=
  ⟨[], by rw [h.consumed, List.append_nil], nofun⟩

theorem TakenBy.trans (h : TakenBy b c) (h' : TakenBy c d) (hs : Settles b.account c.account) : TakenBy b d := by
  have hr : c.reader = b.reader ∨ c.reader = none := hs.reader_eq
  obtain ⟨new, he, hnew⟩ := h
  obtain ⟨new', he', hnew'⟩ := h'
  refine ⟨new ++ new', by rw [he', he, List.append_assoc], ?_⟩
  intro t ht
  rcases List.mem_append.mp ht with ht | ht
  · exact hnew t ht
  · rcases hnew' t ht with h | h
    · rcases hr with hr | hr
      · exact .inl (h.trans hr)
      · exact .inr (h.trans hr)
    · exact .inr h

theorem takenBy_advance {lineEnd : Option UInt8} {σ : Scanner δ} : TakenBy b (b.advance byte lineEnd σ) :=
  ⟨_, rfl, fun t ht => by rw [List.mem_singleton.mp ht]; exact .inl rfl⟩

theorem TakesLf.takenBy {lineEnd : Option UInt8} (h : TakesLf b lineEnd pos rest c pos' rest') : TakenBy b c := by
  cases h with
  | none hin hno => exact ⟨[], (List.append_nil _).symm, nofun⟩
  | chunk hrest => exact ⟨_, rfl, fun t ht => by rw [List.mem_singleton.mp ht]; exact .inl rfl⟩
  | pipe hrest hin hend hcount hbuf => exact ⟨_, rfl, fun t ht => by rw [List.mem_singleton.mp ht]; exact .inl rfl⟩

theorem ByteStep.takenBy {r : Bool × PipeBridge δ} (h : ByteStep host b byte pos rest r) : TakenBy b r.2 := by
  cases h with
  | @go c found hstop hfound h =>
    have hb : TakenBy b (b.advance byte none (b.scan host byte).2) := takenBy_advance
    exact hb.trans (c := b.advance byte none (b.scan host byte).2) h.same.takenBy .same
  | @ended c m e σ lineEnd pos' rest' status data hend hstop hcr hm hlf hdata inp line inputParser readAborted =>
    have ht : TakenBy b c := takenBy_advance.trans hlf.takenBy .same
    rw [finish_eq]
    exact ht
  | @events b' c d e σ lineEnd pos' rest' readbuf inputParser hend hstop hcr hm h hlf h' hpending =>
    have hb' : TakenBy b b' := takenBy_advance.trans h.same.takenBy .same
    have ht : TakenBy b c := hb'.trans hlf.takenBy h.settles
    have hs : Settles b.account c.account := by
      rw [hlf.account_eq]
      exact h.settles
    exact ht.trans h'.same.takenBy hs

/-- The bytes have room, but possibly for the LF of the CR LF at their end. -/
def Fits (bytes : List UInt8) (capacity : Nat) : Prop :=
  bytes.length ≤ capacity ∨ bytes.length = capacity + 1 ∧ bytes.getLast? = some 0x0A

/-- What a raw read gets, unless it is interrupted. -/
def RawData (bytes : List UInt8) (capacity : Nat) (completion : Completion) : Prop :=
  completion.status = statusAlerted ∨ completion.data = .raw (rawReadData bytes capacity) ∧ Fits bytes capacity

theorem credited_advance {id : Nat} {lineEnd : Option UInt8} {σ : Scanner δ} (hr : b.reader = some id) :
    credited id (b.advance byte lineEnd σ) = credited id b ++ [byte] := by
  simp [credited, advance, take, takeItem, hr, Taken.byte?]

theorem credited_takeLf {id : Nat} (hr : b.reader = some id) : credited id (b.take 0x0A) = credited id b ++ [0x0A] := by
  simp [credited, take, takeItem, hr, Taken.byte?]

theorem credited_same {id : Nat} (h : c.consumed = b.consumed) : credited id c = credited id b := by
  rw [credited, credited, h]

theorem Emits.account_eq (h : Emits b c) (hm : b.reading ≠ none) : c.account = b.account := by
  cases h with
  | edit => rfl
  | complete inp line inherit sync h data => exact absurd (by rw [reading, h]) hm

theorem Emits.controlZ_eq (h : Emits b c) (hm : b.reading ≠ none) : c.processControlZ = b.processControlZ := by
  cases h with
  | edit => rfl
  | complete inp line inherit sync h data => exact absurd (by rw [reading, h]) hm

theorem rawReadData_take {bytes bytes' : List UInt8} {capacity : Nat}
    (h : bytes.take capacity = bytes'.take capacity) : rawReadData bytes capacity = rawReadData bytes' capacity := by
  rw [rawReadData, rawReadData, h]

theorem rawReadCapacity_le (msg : IoMsg) : msg.rawReadCapacity ≤ bodySize := by
  unfold IoMsg.rawReadCapacity
  split
  · exact Nat.min_le_right _ _
  · exact Nat.zero_le _

/-- The bytes of the line, with the LF of its CR. -/
theorem TakesLf.rawReadData_eq {id capacity : Nat} {lineEnd : Option UInt8}
    (h : TakesLf b lineEnd pos rest c pos' rest') (hr : b.reader = some id) (hc : credited id b ++ rest = b.readbuf)
    (hpos : b.readbuf.length = pos + rest.length) (hcap : capacity ≤ bodySize) :
    rawReadData (if rest' = [] then c.readbuf else c.readbuf.take pos') capacity =
      rawReadData (credited id c) capacity := by
  have hlen : (credited id b).length = pos := by
    rw [← hc, List.length_append] at hpos
    omega
  cases h with
  | @none vtIn hin hno =>
    have hcb : credited id { b with vtIn } = credited id b := rfl
    rw [hcb]
    split
    · rename_i hrest
      rw [← hc, hrest, List.append_nil]
    · rw [← hc, ← hlen, List.take_left]
  | chunk hrest =>
    rw [credited_takeLf hr]
    have hbuf : (b.take 0x0A).readbuf = (credited id b ++ [0x0A]) ++ rest' := by
      rw [show (b.take 0x0A).readbuf = b.readbuf from rfl, ← hc, hrest, List.append_assoc]
      rfl
    rw [hbuf]
    split
    · rename_i hrest'
      rw [hrest', List.append_nil]
    · rw [List.take_left' (by rw [List.length_append, hlen]; rfl)]
  | @pipe vtIn readbuf hrest hin hend hcount hbuf =>
    rw [credited_takeLf (by exact hr), if_pos rfl]
    rw [hrest, List.append_nil] at hc
    have hcb : credited id { b with vtIn, readbuf } = b.readbuf := (credited_same (b := b) rfl).trans hc
    rw [hcb]
    show rawReadData readbuf capacity = _
    rcases hbuf with h | ⟨hlong, h⟩
    · rw [h]
    · rw [h]
      refine rawReadData_take ?_
      rw [List.take_append_of_le_length (by omega)]

theorem fits_concat {bytes : List UInt8} {capacity : Nat} (h : bytes.length ≤ capacity) : Fits (bytes ++ [0x0A]) capacity := by
  rcases Nat.lt_or_ge bytes.length capacity with hlt | hge
  · exact .inl (by rw [List.length_append]; exact hlt)
  · exact .inr ⟨by rw [List.length_append, Nat.le_antisymm h hge]; rfl, List.getLast?_concat⟩

theorem TakesLf.fits {id capacity : Nat} {lineEnd : Option UInt8} (h : TakesLf b lineEnd pos rest c pos' rest')
    (hr : b.reader = some id) (hc : credited id b ++ rest = b.readbuf) (hfit : b.readbuf.length ≤ capacity) :
    Fits (credited id c) capacity := by
  have hlen : (credited id b).length ≤ capacity := by
    rw [← hc, List.length_append] at hfit
    omega
  cases h with
  | none => exact .inl hlen
  | chunk =>
    rw [credited_takeLf hr]
    exact fits_concat hlen
  | pipe =>
    rw [credited_takeLf (by exact hr)]
    exact fits_concat hlen

/-- A byte of a raw read: it is credited to the read, and what the read returns
at a line end are the bytes credited to it. -/
theorem ByteStep.raw {r : Bool × PipeBridge δ} (h : ByteStep host b byte pos rest r) (hp : b.pending = .rawRead m)
    (hc : credited (b.msgs m).identifier b ++ byte :: rest = b.readbuf) (hpos : b.readbuf.length = pos + rest.length)
    (hfit : b.readbuf.length ≤ (b.msgs m).rawReadCapacity) :
    (r.1 = false ∧ r.2.account = b.account ∧ r.2.readbuf = b.readbuf ∧
        credited (b.msgs m).identifier r.2 ++ rest = r.2.readbuf) ∨
      (r.1 = true ∧ r.2.pending = .none ∧ ∃ completion, (r.2.msgs m).complete = some completion ∧
        RawData (credited (b.msgs m).identifier r.2) (b.msgs m).rawReadCapacity completion) := by
  have hr : b.reader = some (b.msgs m).identifier := by rw [reader, hp]
  have hread : b.reading = some m := by rw [reading, hp]
  have hadv : ∀ lineEnd σ, credited (b.msgs m).identifier (b.advance byte lineEnd σ) ++ rest = b.readbuf := by
    intro lineEnd σ
    rw [credited_advance hr, List.append_assoc]
    exact hc
  cases h with
  | @go c found hstop hfound h =>
    left
    have hne : (b.advance byte none (b.scan host byte).2).reading ≠ none := by
      rw [show (b.advance byte none (b.scan host byte).2).reading = b.reading from rfl, hread]
      exact Option.some_ne_none m
    have hacc := h.account_eq hne
    refine ⟨rfl, hacc, h.same.readbuf, ?_⟩
    have hb := hadv none (b.scan host byte).2
    rw [credited_same h.same.consumed, h.same.readbuf]
    exact hb
  | @ended c m' e σ lineEnd pos' rest' status data hend hstop hcr hm hlf hdata inp line inputParser readAborted =>
    right
    cases hread.symm.trans hm
    have hacc : c.account = b.account := hlf.account_eq
    have hmsgs : c.msgs = b.msgs := congrArg Account.msgs hacc
    rw [finish_eq]
    refine ⟨rfl, rfl, c.completion m status data, by simp, ?_⟩
    have hcap := hlf.rawReadData_eq (by exact hr) (hadv lineEnd σ) hpos (rawReadCapacity_le (b.msgs m))
    cases hdata with
    | alerted => exact .inl rfl
    | raw h =>
      refine .inr ⟨?_, hlf.fits (by exact hr) (hadv lineEnd σ) hfit⟩
      show CompletionData.raw _ = _
      rw [hmsgs, hcap]
      rfl
    | console h =>
      rw [show c.pending = b.pending from congrArg Account.pending hacc, hp] at h
      cases h
  | @events b' c d e σ lineEnd pos' rest' readbuf inputParser hend hstop hcr hm h hlf h' hpending =>
    rw [reading, hp] at hm
    cases hm

/-! ## Chunks -/

/-- Ctrl+Z ends only a pending read. -/
def ControlZ (b : PipeBridge δ) : Prop := b.reading = none → b.processControlZ = false

/-- The first end in a chunk, from the state of the bridge. -/
def chunkEnd (host : Host δ) (b : PipeBridge δ) (stops : LineEnd → Bool) (chunk : List UInt8) :
    Option (LineEnd × List UInt8) :=
  firstEnd host b.inputMode b.processControlZ stops b.scanner chunk

theorem Emits.controlZ (h : Emits b c) (hz : b.ControlZ) : c.processControlZ = b.processControlZ ∧ c.ControlZ := by
  cases h with
  | edit => exact ⟨rfl, hz⟩
  | complete inp line inherit sync h data =>
    rw [finish_eq]
    exact ⟨(hz (by rw [reading, h])).symm, fun _ => rfl⟩

theorem Emits.stops_eq (h : Emits b c) : LineEnd.stops c.pendingKind = LineEnd.stops b.pendingKind := by
  cases h with
  | edit => rfl
  | complete inp line inherit sync h data =>
    rw [finish_eq, pendingKind, pendingKind, h]
    funext e
    cases e <;> rfl

theorem chunkEnd_cons {found : Bool} (stops : LineEnd → Bool) (bytes : List UInt8)
    (h : (b.scan host byte).1.filter stops = none)
    (hc : Emits { b.advance byte none (b.scan host byte).2 with lineFound := found } c)
    (hz : c.processControlZ = b.processControlZ) :
    chunkEnd host b stops (byte :: bytes) = chunkEnd host c stops bytes := by
  have hs := hc.same
  have hscan : c.scanner = (b.scan host byte).2 := by
    rw [scanner, hs.utf8Decoder, hs.inputParser]
    rfl
  have hmode : c.inputMode = b.inputMode := hs.inputMode
  rw [chunkEnd, chunkEnd, firstEnd, hmode, hz, hscan]
  rw [scan] at h
  rw [h]
  rfl

theorem chunkEnd_stop {stops : LineEnd → Bool} {e : LineEnd} (h : (b.scan host byte).1 = some e) (he : stops e = true)
    (bytes : List UInt8) : chunkEnd host b stops (byte :: bytes) = some (e, bytes) := by
  rw [chunkEnd, firstEnd]
  rw [scan] at h
  rw [h, Option.filter_some, if_pos he]

/-- The loop of `process_input`, as a sequence of steps. -/
inductive ChunkRun (host : Host δ) : PipeBridge δ → Nat → List UInt8 → PipeBridge δ → Prop
  | done (b : PipeBridge δ) (pos : Nat) : ChunkRun host b pos [] b
  | stop {b c : PipeBridge δ} {pos : Nat} {byte : UInt8} {rest : List UInt8}
    (h : ByteStep host b byte (pos + 1) rest (true, c)) : ChunkRun host b pos (byte :: rest) c
  | go {b c d : PipeBridge δ} {pos : Nat} {byte : UInt8} {rest : List UInt8}
    (h : ByteStep host b byte (pos + 1) rest (false, c)) (hrun : ChunkRun host c (pos + 1) rest d) :
    ChunkRun host b pos (byte :: rest) d

theorem processBytes_run (host : Host δ) (b : PipeBridge δ) (pos : Nat) (bytes : List UInt8) :
    ChunkRun host b pos bytes (b.processBytes host pos bytes) := by
  induction bytes generalizing b pos with
  | nil => exact .done b pos
  | cons byte rest ih =>
    have h := processByte_step host b byte (pos + 1) rest
    rw [processBytes]
    generalize b.processByte host byte (pos + 1) rest = r at h
    obtain ⟨stop, c⟩ := r
    cases stop with
    | true => exact .stop h
    | false => exact .go h (ih c (pos + 1))

theorem ChunkRun.settles {bytes : List UInt8} (h : ChunkRun host b pos bytes c) : Settles b.account c.account := by
  induction h with
  | done => exact .same
  | stop h => exact h.settles
  | go h hrun ih => exact h.settles.trans ih

theorem ChunkRun.takenBy {bytes : List UInt8} (h : ChunkRun host b pos bytes c) : TakenBy b c := by
  induction h with
  | done b => exact ⟨[], (List.append_nil _).symm, nofun⟩
  | stop h => exact h.takenBy
  | go h hrun ih => exact h.takenBy.trans ih h.settles

theorem ByteStep.kept {r : Bool × PipeBridge δ} (h : ByteStep host b byte pos rest r) :
    r.2.rounds = b.rounds ∧ r.2.vtEof = b.vtEof ∧ (b.ControlZ → r.2.ControlZ) := by
  cases h with
  | go hstop hfound h => exact ⟨h.same.rounds, h.same.vtEof, fun hz => (h.controlZ hz).2⟩
  | ended hend hstop hcr hm hlf hdata =>
    rw [finish_eq]
    have hc := hlf
    refine ⟨?_, ?_, fun _ _ => rfl⟩
    · cases hlf <;> rfl
    · cases hlf <;> rfl
  | @events b' c d e σ lineEnd pos' rest' readbuf inputParser hend hstop hcr hm h hlf h' hpending =>
    refine ⟨h'.same.rounds.trans ?_, h'.same.vtEof.trans ?_, fun hz => ?_⟩
    · refine Eq.trans ?_ h.same.rounds
      cases hlf <;> rfl
    · refine Eq.trans ?_ h.same.vtEof
      cases hlf <;> rfl
    · have hb' : b'.ControlZ := (h.controlZ hz).2
      have hc : c.ControlZ := by
        cases hlf <;> exact hb'
      exact (h'.controlZ hc).2

theorem ChunkRun.kept {bytes : List UInt8} (h : ChunkRun host b pos bytes c) :
    c.rounds = b.rounds ∧ c.vtEof = b.vtEof ∧ (b.ControlZ → c.ControlZ) := by
  induction h with
  | done => exact ⟨rfl, rfl, id⟩
  | stop h => exact h.kept
  | go h hrun ih =>
    obtain ⟨h1, h2, h3⟩ := h.kept
    obtain ⟨i1, i2, i3⟩ := ih
    exact ⟨i1.trans h1, i2.trans h2, i3 ∘ h3⟩

/-- A chunk is delivered in order, unless its last byte is a CR that is cut from its LF. -/
theorem ChunkRun.delivers {bytes : List UInt8} (h : ChunkRun host b pos bytes c) (hz : b.ControlZ)
    (hsafe : chunkEnd host b (LineEnd.stops b.pendingKind) bytes = some (.carriageReturn, []) →
      SafeSplit b.queuedVtInput b.vtIn) :
    c.stream [] = b.stream bytes ∧ (Paired b bytes → Paired c []) := by
  induction h with
  | done => exact ⟨rfl, id⟩
  | stop h =>
    refine h.delivers fun hcr hrest => hsafe ?_
    rw [chunkEnd_stop hcr rfl, hrest]
  | @go b c d pos byte rest h hrun ih =>
    have hstep := h.delivers fun hcr hrest => hsafe (by rw [chunkEnd_stop hcr rfl, hrest])
    cases h with
    | go hstop hfound h =>
      have hcz := h.controlZ hz
      have ih' := ih hcz.2 ?_
      · exact ⟨ih'.1.trans hstep.1, ih'.2 ∘ hstep.2⟩
      · rw [h.same.queuedVtInput, h.same.vtIn, h.stops_eq]
        intro hc
        refine hsafe ?_
        rw [chunkEnd_cons _ rest hstop h hcz.1]
        exact hc

/-- A chunk without an end. -/
theorem ChunkRun.no_end {bytes : List UInt8} (h : ChunkRun host b pos bytes c) (hm : b.reading ≠ none)
    (hnone : chunkEnd host b (fun _ => true) bytes = none) :
    c.account = b.account ∧ c.lineFound = b.lineFound ∧ c.queuedVtInput = b.queuedVtInput ∧ c.vtIn = b.vtIn := by
  induction h with
  | done => exact ⟨rfl, rfl, rfl, rfl⟩
  | stop h =>
    cases h with
    | ended hend => rw [chunkEnd_stop hend rfl] at hnone; cases hnone
    | events hend => rw [chunkEnd_stop hend rfl] at hnone; cases hnone
  | @go b c d pos byte rest h hrun ih =>
    have hscan : (b.scan host byte).1 = none := by
      cases he : (b.scan host byte).1 with
      | none => rfl
      | some e => rw [chunkEnd_stop he rfl] at hnone; cases hnone
    cases h with
    | go hstop hfound h =>
      have hacc := h.account_eq hm
      have hz : c.processControlZ = b.processControlZ := h.controlZ_eq hm
      rw [chunkEnd_cons (fun _ => true) rest (by rw [hscan]; rfl) h hz] at hnone
      obtain ⟨h1, h2, h3, h4⟩ := ih (by rw [h.reading_eq]; exact hm) hnone
      refine ⟨h1.trans hacc, h2.trans (h.same.lineFound.trans ?_), h3.trans h.same.queuedVtInput, h4.trans h.same.vtIn⟩
      rcases hfound with hf | hf
      · exact hf
      · rw [hscan] at hf
        cases hf

/-- A chunk of a raw read. -/
theorem ChunkRun.raw {bytes : List UInt8} (h : ChunkRun host b pos bytes c) (hp : b.pending = .rawRead m)
    (hc : credited (b.msgs m).identifier b ++ bytes = b.readbuf) (hpos : b.readbuf.length = pos + bytes.length)
    (hfit : b.readbuf.length ≤ (b.msgs m).rawReadCapacity) :
    (c.account = b.account ∧ c.readbuf = b.readbuf ∧ credited (b.msgs m).identifier c = c.readbuf) ∨
      (c.pending = .none ∧ ∃ completion, (c.msgs m).complete = some completion ∧
        RawData (credited (b.msgs m).identifier c) (b.msgs m).rawReadCapacity completion) := by
  induction h with
  | done b pos => exact .inl ⟨rfl, rfl, by rw [← hc, List.append_nil]⟩
  | stop h =>
    rcases h.raw hp hc (by rw [hpos, List.length_cons]; omega) hfit with h | h
    · cases h.1
    · exact .inr h.2
  | @go b c d pos byte rest h hrun ih =>
    rcases h.raw hp hc (by rw [hpos, List.length_cons]; omega) hfit with ⟨-, hacc, hbuf, hc'⟩ | h
    · have hp' : c.pending = .rawRead m := (congrArg Account.pending hacc).trans hp
      have hmsgs : c.msgs = b.msgs := congrArg Account.msgs hacc
      have ih' := ih hp' (by rw [hmsgs]; exact hc') (by
        rw [show c.readbuf = b.readbuf from hbuf, hpos, List.length_cons]
        omega) (by rw [show c.readbuf = b.readbuf from hbuf, hmsgs]; exact hfit)
      rw [hmsgs, show c.account = b.account from hacc, show c.readbuf = b.readbuf from hbuf] at ih'
      exact ih'
    · cases h.1

end PipeBridge

end Corehost
