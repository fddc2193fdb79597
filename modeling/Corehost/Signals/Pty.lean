import Corehost.Lib.LittleEndian
import Corehost.Lib.Pipe
import Corehost.Screen.Frame
import Corehost.Screen.TerminalClear

/-!
# Signals of the terminal

A terminal tells its console of a new size, a cleared buffer, a hidden window
and a new owner by the calls of `libconpty.hpp`, each of which writes a message
into the signal pipe. The session reads them between two waits: the model of
`pty_signal_reader` (`signal.hpp`, `signal.cpp`) and of `poll_signal_closed`
(`pipe_bridge.hpp`).

* `packet_consumes`: `poll` reads what the calls write;
* `screen_follows_terminal`: in any order of the calls, of the reads and of the
  polls, no message is lost, cut or taken twice, and the buffer has the newest
  size that a poll of the session has found;
* `poll_ends`: with pointers of four bytes `poll` does not get past a new
  owner.
-/

namespace Corehost

open Lib

/-! ## The calls of the terminal -/

/-- The calls of `libconpty.hpp` that write into the signal pipe. -/
inductive ConptyCall where
  /-- `ConptyResizePseudoConsole`. -/
  | resize (size : Coord)
  /-- `ConptyClearPseudoConsole`. -/
  | clear (keepCursorRow : Bool)
  /-- `ConptyShowHidePseudoConsole`. -/
  | showHide (show' : Bool)
  /-- `ConptyReparentPseudoConsole`. -/
  | reparent (newParent : UInt64)
deriving DecidableEq, Repr

namespace ConptyCall

/-- `E_INVALIDARG`. -/
def rejected : ConptyCall → Bool
  | .resize size => size.x < 0 || size.y < 0
  | _ => false

/-- The identifiers of `winconpty.h`. -/
def signal : ConptyCall → Nat
  | .resize _ => 8
  | .clear _ => 2
  | .showHide _ => 1
  | .reparent _ => 3

def payload : ConptyCall → List UInt8
  | .resize size => leBytes 2 (size.x % 0x10000).toNat ++ leBytes 2 (size.y % 0x10000).toNat
  | .clear keepCursorRow => leBytes 2 (if keepCursorRow then 1 else 0)
  | .showHide show' => leBytes 2 (if show' then 1 else 0)
  | .reparent newParent => leBytes 8 newParent.toNat

/-- What `WriteFile` writes. -/
def packet (c : ConptyCall) : List UInt8 := leBytes 2 c.signal ++ c.payload

/-- The sizes are pairs of `SHORT`. -/
def Short : ConptyCall → Prop
  | .resize size => IsShort size.x ∧ IsShort size.y
  | _ => True

instance (c : ConptyCall) : Decidable c.Short := by
  cases c <;> unfold Short <;> infer_instance

end ConptyCall

/-- A call that writes its message. -/
structure ConptyMessage where
  call : ConptyCall
  short : call.Short
  accepted : call.rejected = false
deriving DecidableEq

/-! ## The reader -/

/-- `PtySignal`. -/
inductive PtySignal where
  | showHideWindow
  | clearBuffer
  | setParent
  | resizeWindow
deriving DecidableEq, Repr

def PtySignal.ofId : Nat → Option PtySignal
  | 1 => some .showHideWindow
  | 2 => some .clearBuffer
  | 3 => some .setParent
  | 8 => some .resizeWindow
  | _ => none

/-- `payload_size_for`, with a `ULONG_PTR` of `ptr` bytes. -/
def payloadSizeFor (ptr : Nat) (id : Nat) : Nat :=
  match PtySignal.ofId id with
  | some .showHideWindow => 2
  | some .clearBuffer => 2
  | some .setParent => ptr
  | some .resizeWindow => 4
  | none => 0

/-- The reads of `poll` for a message, which is its identifier and its payload. -/
def pollMessage (ptr : Nat) : Reads UInt8 (Option (Nat × List UInt8)) :=
  .read 2 fun idBytes =>
    if idBytes.length ≠ 2 then .done none
    else
      let id := leNat idBytes
      let payloadSize := payloadSizeFor ptr id
      if payloadSize = 0 then .done none
      else .read payloadSize fun payload =>
        if payload.length ≠ payloadSize then .done none else .done (some (id, payload))

/-- `pty_signal_reader`, with what `SetWindowLongPtrW` has made the owner of the
console window when there is one. -/
structure PtySignalReader where
  resize : Option Coord := none
  clear : Option Bool := none
  consoleWindow : Bool := false
  windowOwner : Option Nat := none
deriving DecidableEq, Repr

/-- The `COORD` in these bytes. -/
def coordOfBytes (bytes : List UInt8) : Coord := ⟨i16 (leNat (bytes.take 2)), i16 (leNat ((bytes.drop 2).take 2))⟩

def PtySignalReader.handleMessage (r : PtySignalReader) (message : Nat × List UInt8) : PtySignalReader :=
  match PtySignal.ofId message.1 with
  | some .showHideWindow => r
  | some .clearBuffer => { r with clear := some (leNat (message.2.take 2) ≠ 0) }
  | some .setParent => if r.consoleWindow then { r with windowOwner := some (leNat message.2) } else r
  | some .resizeWindow =>
    let size := coordOfBytes message.2
    if size.x > 0 ∧ size.y > 0 then { r with resize := some size } else r
  | none => r

/-! ## The session -/

/-- The reader and the screens of a session. `count` is how many messages were
handled, `taken` how many of them before `poll_signal_closed` last took them. -/
structure PtySession where
  reader : PtySignalReader := {}
  screens : TerminalScreens
  count : Nat := 0
  taken : Nat := 0

namespace PtySession

def handleMessage (s : PtySession) (message : Nat × List UInt8) : PtySession :=
  { s with reader := s.reader.handleMessage message, count := s.count + 1 }

/-- What `poll_signal_closed` does after `poll`: `take_resize`, then `take_clear`. -/
def takeSignals (s : PtySession) (_ : Unit) : PtySession :=
  let screens := match s.reader.resize with
    | some size => s.screens.applyTerminalResize size
    | none => s.screens
  let screens := match s.reader.clear with
    | some keepCursorRow => screens.applyTerminalClear keepCursorRow
    | none => screens
  { s with reader := { s.reader with resize := none, clear := none }, screens, taken := s.count }

end PtySession

/-! ## What the reader makes of a message -/

namespace ConptyCall

variable {c : ConptyCall}

theorem length_payload (c : ConptyCall) : c.payload.length = payloadSizeFor 8 c.signal := by
  cases c <;> simp [payload, signal, payloadSizeFor, PtySignal.ofId]

theorem leNat_signal (c : ConptyCall) : leNat (leBytes 2 c.signal) = c.signal :=
  leNat_leBytes_of_lt (by cases c <;> simp [signal])

theorem i16_leNat {n : Int} (h : IsShort n) : i16 (leNat (leBytes 2 (n % 0x10000).toNat)) = n := by
  obtain ⟨h1, h2⟩ := h
  rw [leNat_leBytes_of_lt (by omega), i16, Int.bmod_def]
  omega

theorem coordOfBytes_payload {size : Coord} (hx : IsShort size.x) (hy : IsShort size.y) :
    coordOfBytes (payload (.resize size)) = size := by
  have htake : (payload (.resize size)).take 2 = leBytes 2 (size.x % 0x10000).toNat :=
    List.take_left' (length_leBytes ..)
  have hdrop : (payload (.resize size)).drop 2 = leBytes 2 (size.y % 0x10000).toNat :=
    List.drop_left' (length_leBytes ..)
  rw [coordOfBytes, htake, hdrop, List.take_of_length_le (Nat.le_of_eq (length_leBytes ..)), i16_leNat hx, i16_leNat hy]

end ConptyCall

/-- `poll` reads one message of the pipe to its end. -/
theorem ConptyCall.packet_consumes (c : ConptyCall) : Consumes (pollMessage 8) c.packet (some (c.signal, c.payload)) := by
  refine consumes_read (length_leBytes ..) (by decide) ?_
  have hsize : payloadSizeFor 8 c.signal ≠ 0 := by
    cases c <;> simp [ConptyCall.signal, payloadSizeFor, PtySignal.ofId]
  rw [if_neg (by simp), c.leNat_signal]
  dsimp only
  rw [if_neg hsize]
  refine consumes_last c.length_payload (by omega) ?_
  rw [if_neg (not_not.mpr c.length_payload)]
  exact consumes_done _

/-- The signal pipe of a session. -/
def ptyWire : Wire UInt8 ConptyMessage (Nat × List UInt8) where
  encode m := m.call.packet
  decode m := (m.call.signal, m.call.payload)
  program := pollMessage 8
  consumes m := m.call.packet_consumes
  nonempty m h := by simpa [ConptyCall.packet] using congrArg List.length h

/-! ## What the session follows -/

/-- The size that a message announces. -/
def ConptyCall.announced : ConptyCall → Option Coord
  | .resize size => if size.x > 0 ∧ size.y > 0 then some size else none
  | _ => none

def ConptyCall.cleared : ConptyCall → Option Bool
  | .clear keepCursorRow => some keepCursorRow
  | _ => none

/-- What the newest of the messages says. -/
def newest {α : Type} (f : ConptyCall → Option α) (ms : List ConptyMessage) : Option α :=
  (ms.filterMap fun m => f m.call).getLast?

theorem newest_concat {α : Type} (f : ConptyCall → Option α) (ms : List ConptyMessage) (m : ConptyMessage) :
    newest f (ms ++ [m]) = (f m.call).or (newest f ms) := by
  rw [newest, List.filterMap_append]
  cases h : f m.call <;> simp [h, newest]

theorem newest_append {α : Type} (f : ConptyCall → Option α) (ms ms' : List ConptyMessage) :
    newest f (ms ++ ms') = (newest f ms').or (newest f ms) := by
  rw [newest, List.filterMap_append, List.getLast?_append]
  rfl

theorem announced_short {c : ConptyCall} (hshort : c.Short) {size : Coord} (h : c.announced = some size) :
    (1 ≤ size.x ∧ size.x ≤ 0x7FFF) ∧ 1 ≤ size.y ∧ size.y ≤ 0x7FFF := by
  cases c with
  | resize size' =>
    by_cases hpos : size'.x > 0 ∧ size'.y > 0
    · rw [ConptyCall.announced, if_pos hpos, Option.some_inj] at h
      subst h
      obtain ⟨⟨-, hx⟩, -, hy⟩ := hshort
      omega
    · simp [ConptyCall.announced, if_neg hpos] at h
  | clear => simp [ConptyCall.announced] at h
  | showHide => simp [ConptyCall.announced] at h
  | reparent => simp [ConptyCall.announced] at h

theorem newest_announced_short {ms : List ConptyMessage} {size : Coord} (h : newest ConptyCall.announced ms = some size) :
    (1 ≤ size.x ∧ size.x ≤ 0x7FFF) ∧ 1 ≤ size.y ∧ size.y ≤ 0x7FFF := by
  obtain ⟨m, -, hm⟩ := List.mem_filterMap.mp (List.mem_of_getLast? h)
  exact announced_short m.short hm

/-- A message changes what it is about. -/
theorem handleMessage_call (r : PtySignalReader) {c : ConptyCall} (hshort : c.Short) :
    (r.handleMessage (c.signal, c.payload)).resize = c.announced.or r.resize ∧
      (r.handleMessage (c.signal, c.payload)).clear = c.cleared.or r.clear := by
  unfold PtySignalReader.handleMessage
  cases c with
  | resize size =>
    simp only [ConptyCall.signal, PtySignal.ofId, ConptyCall.coordOfBytes_payload hshort.1 hshort.2, ConptyCall.announced]
    split_ifs <;> exact ⟨by simp, by simp [ConptyCall.cleared]⟩
  | clear keepCursorRow =>
    have hpayload : leNat ((ConptyCall.payload (.clear keepCursorRow)).take 2) = if keepCursorRow then 1 else 0 := by
      cases keepCursorRow <;> decide
    simp only [ConptyCall.signal, PtySignal.ofId, hpayload]
    cases keepCursorRow <;> exact ⟨by simp [ConptyCall.announced], by simp [ConptyCall.cleared]⟩
  | showHide => exact ⟨by simp [ConptyCall.signal, PtySignal.ofId, ConptyCall.announced],
      by simp [ConptyCall.signal, PtySignal.ofId, ConptyCall.cleared]⟩
  | reparent =>
    simp only [ConptyCall.signal, PtySignal.ofId]
    split_ifs <;> exact ⟨by simp [ConptyCall.announced], by simp [ConptyCall.cleared]⟩

/-- Every size that the session keeps for the terminal is this one. -/
structure HasSize (c : TerminalScreens) (size : Coord) : Prop where
  active : c.sb.size = size ∧ c.sb.viewport = .ofBuffer size
  console : c.screenBufferSize = size ∧ c.maxWindowSize = size
  behind : ∀ s ∈ c.behind, s.size = size ∧ s.viewport = .ofBuffer size

theorem hasSize_applyTerminalResize (c : TerminalScreens) {size : Coord} (hx : 1 ≤ size.x ∧ size.x ≤ 0x7FFF)
    (hy : 1 ≤ size.y ∧ size.y ≤ 0x7FFF) : HasSize (c.applyTerminalResize size) size := by
  obtain ⟨hsb, -, hsizes, hbehind⟩ := c.applyTerminalResize_fields size
  refine ⟨by rw [hsb]; exact ScreenBuffer.resetTo_spec _ hx hy, hsizes, fun s hs => ?_⟩
  rw [hbehind] at hs
  obtain ⟨sbuf, -, rfl⟩ := Option.map_eq_some_iff.mp hs
  exact ScreenBuffer.resetTo_spec sbuf hx hy

/-! ## The screens keep their size when the terminal clears them -/

namespace ScreenBuffer

variable {γ : Type}

theorem sameFrame_eachRow (more : γ → Bool) (next : γ → Nat → γ) (act : γ → Nat → ScreenBufferRow → ScreenBufferRow) :
    ∀ (n x y : Nat) (st : γ) (s : ScreenBuffer), SameFrame s (eachRow more next act n x y st s).2
  | 0, _, _, _, s => .refl s
  | n + 1, x, y, st, s => by
    unfold eachRow
    split
    · exact (sameFrame_modifyRow s y _).trans (sameFrame_eachRow more next act n 0 (y + 1) _ _)
    · exact .refl s

theorem sameFrame_fillBlank (s : ScreenBuffer) (attr : UInt16) (start : Coord) (count : Nat) :
    SameFrame s (s.fillBlank attr start count) := by
  have hchar : SameFrame s (s.fillChar 0x20 start count).2 := by
    unfold fillChar
    split_ifs
    · exact .refl s
    · exact .refl s
    · exact sameFrame_eachRow ..
  refine hchar.trans ?_
  unfold fillBlank fillAttr
  split_ifs
  · exact .refl _
  · exact .refl _
  · exact sameFrame_eachRow ..

theorem sameFrame_fillAround (s : ScreenBuffer) (attr : UInt16) (top : Int) : SameFrame s (s.fillAround attr top) := by
  have hif (t : ScreenBuffer) (p : Prop) [Decidable p] (start : Coord) (count : Nat) :
      SameFrame t (if p then t.fillBlank attr start count else t) := by
    split
    · exact sameFrame_fillBlank ..
    · exact .refl t
  exact (hif s _ _ _).trans (hif _ _ _ _)

theorem sameFrame_shiftRows (s : ScreenBuffer) (dy : Int) (attr : UInt16) : SameFrame s (s.shiftRows dy attr) := by
  unfold shiftRows
  split
  · exact .refl s
  · exact sameFrame_scroll ..

end ScreenBuffer

theorem hasSize_applyTerminalClear {c : TerminalScreens} {size : Coord} (h : HasSize c size) (keepCursorRow : Bool) :
    HasSize (c.applyTerminalClear keepCursorRow) size := by
  obtain ⟨hactive, hconsole, hbehind⟩ := h
  have hframe : ScreenBuffer.SameFrame c.sb (c.applyTerminalClear keepCursorRow).sb := by
    cases keepCursorRow
    · cases hv : c.cursorValid <;> simp only [TerminalScreens.applyTerminalClear, hv] <;> exact ⟨rfl, rfl⟩
    · have := (ScreenBuffer.sameFrame_shiftRows c.sb (i16 (c.sb.viewport.rect.top - c.state.position.y))
        c.state.defaultAttributes).trans (ScreenBuffer.sameFrame_fillAround _ c.state.defaultAttributes c.sb.viewport.rect.top)
      cases hv : c.cursorValid <;> simp only [TerminalScreens.applyTerminalClear, hv] <;> exact this
  have hrest : (c.applyTerminalClear keepCursorRow).screenBufferSize = c.screenBufferSize ∧
      (c.applyTerminalClear keepCursorRow).maxWindowSize = c.maxWindowSize ∧
      (c.applyTerminalClear keepCursorRow).behind = c.behind := by
    cases keepCursorRow <;> cases hv : c.cursorValid <;> simp only [TerminalScreens.applyTerminalClear, hv] <;>
      exact ⟨rfl, rfl, rfl⟩
  refine ⟨⟨hframe.size.trans hactive.1, hframe.viewport.trans hactive.2⟩, ?_, ?_⟩
  · rw [hrest.1, hrest.2.1]
    exact hconsole
  · rw [hrest.2.2]
    exact hbehind

/-! ## The session -/

/-- `ms` are the messages that were handled: the reader holds the newest size and
the newest clear since the last poll of the session, and the screens have the
newest size before that. -/
structure PtySession.Follows (ms : List ConptyMessage) (s : PtySession) : Prop where
  count : s.count = ms.length
  taken : s.taken ≤ ms.length
  resize : s.reader.resize = newest ConptyCall.announced (ms.drop s.taken)
  clear : s.reader.clear = newest ConptyCall.cleared (ms.drop s.taken)
  size : ∀ size, newest ConptyCall.announced (ms.take s.taken) = some size → HasSize s.screens size

namespace PtySession

variable {ms : List ConptyMessage} {s : PtySession}

theorem Follows.handle (h : s.Follows ms) (m : ConptyMessage) : (s.handleMessage (ptyWire.decode m)).Follows (ms ++ [m]) := by
  obtain ⟨hresize, hclear⟩ := handleMessage_call s.reader m.short
  have htaken : s.taken ≤ ms.length := h.taken
  refine ⟨?_, ?_, ?_, ?_, fun size hsize => h.size size ?_⟩
  · rw [List.length_append, List.length_singleton, ← h.count]
    rfl
  · rw [List.length_append]
    exact Nat.le_add_right_of_le htaken
  · change (s.reader.handleMessage (m.call.signal, m.call.payload)).resize = newest _ ((ms ++ [m]).drop s.taken)
    rw [hresize, h.resize, List.drop_append_of_le_length htaken, newest_concat]
  · change (s.reader.handleMessage (m.call.signal, m.call.payload)).clear = newest _ ((ms ++ [m]).drop s.taken)
    rw [hclear, h.clear, List.drop_append_of_le_length htaken, newest_concat]
  · change newest _ ((ms ++ [m]).take s.taken) = some size at hsize
    rwa [List.take_append_of_le_length htaken] at hsize

theorem Follows.takeSignals (h : s.Follows ms) (u : Unit) : (s.takeSignals u).Follows ms := by
  have hall : ms.take (s.takeSignals u).taken = ms ∧ ms.drop (s.takeSignals u).taken = [] := by
    rw [show (s.takeSignals u).taken = s.count from rfl, h.count]
    exact ⟨List.take_length, List.drop_length⟩
  refine ⟨h.count, Nat.le_of_eq h.count, ?_, ?_, fun size hsize => ?_⟩
  · rw [hall.2]
    rfl
  · rw [hall.2]
    rfl
  · rw [hall.1, ← List.take_append_drop s.taken ms, newest_append, ← h.resize] at hsize
    have hscreens : HasSize (match s.reader.resize with
        | some size => s.screens.applyTerminalResize size
        | none => s.screens) size := by
      cases hresize : s.reader.resize with
      | none =>
        rw [hresize, Option.none_or] at hsize
        exact h.size size hsize
      | some newSize =>
        rw [hresize, Option.some_or, Option.some_inj] at hsize
        subst hsize
        obtain ⟨hx, hy⟩ := newest_announced_short (h.resize.symm.trans hresize)
        exact hasSize_applyTerminalResize s.screens hx hy
    unfold PtySession.takeSignals
    dsimp only
    cases s.reader.clear with
    | none => exact hscreens
    | some keepCursorRow => exact hasSize_applyTerminalClear hscreens keepCursorRow

end PtySession

/-- A session and its terminal, with the signal pipe between them. -/
abbrev PtyChannel := Poller UInt8 ConptyMessage (Nat × List UInt8) PtySession

inductive PtyEvent where
  /-- The terminal makes a call. -/
  | call (c : ConptyCall)
  /-- `ConptyClosePseudoConsole`. -/
  | close
  /-- `poll_signal_closed` begins to poll. -/
  | poll
  /-- The next call of `poll` on the pipe. -/
  | advance
  /-- What `poll` has found is taken. -/
  | take
deriving DecidableEq, Repr

namespace PtyChannel

def ofScreens (screens : TerminalScreens) (consoleWindow : Bool) : PtyChannel :=
  { state := { screens, reader := { consoleWindow } } }

def step (s : PtyChannel) : PtyEvent → Option PtyChannel
  | .call c =>
    if h : c.Short ∧ c.rejected = false then
      Poller.step ptyWire PtySession.handleMessage PtySession.takeSignals s (.write ⟨c, h.1, h.2⟩)
    else some s
  | .close => Poller.step ptyWire PtySession.handleMessage PtySession.takeSignals s .close
  | .poll => Poller.step ptyWire PtySession.handleMessage PtySession.takeSignals s .poll
  | .advance => Poller.step ptyWire PtySession.handleMessage PtySession.takeSignals s .advance
  | .take => Poller.step ptyWire PtySession.handleMessage PtySession.takeSignals s (.use ())

/-- Every step of the channel is one of the poller, but for a call that is rejected. -/
theorem step_cases {s s' : PtyChannel} {e : PtyEvent} (h : s.step e = some s') :
    s' = s ∨ ∃ e', Poller.step ptyWire PtySession.handleMessage PtySession.takeSignals s e' = some s' := by
  cases e with
  | call c =>
    by_cases hc : c.Short ∧ c.rejected = false
    · rw [step, dif_pos hc] at h
      exact .inr ⟨_, h⟩
    · rw [step, dif_neg hc, Option.some_inj] at h
      exact .inl h.symm
  | close => exact .inr ⟨.close, h⟩
  | poll => exact .inr ⟨.poll, h⟩
  | advance => exact .inr ⟨.advance, h⟩
  | take => exact .inr ⟨.use (), h⟩

end PtyChannel

/-- In any order of the calls of the terminal, of the reads and of the polls, the
messages are handled once each and in order, no read is cut or waits, and the
screens have the newest size that a poll of the session has found. -/
theorem screen_follows_terminal (screens : TerminalScreens) (consoleWindow : Bool) (events : List PtyEvent) :
    EveryState PtyChannel.step (fun s => ∃ done, s.InOrder ptyWire done ∧ s.state.Follows done)
      (PtyChannel.ofScreens screens consoleWindow) events := by
  refine @everyState_of_invariant _ _ _ (fun s : PtyChannel => ∃ done queue, s.Queued ptyWire done queue ∧ s.state.Follows done) _
    (fun _ ⟨done, _, h, hf⟩ => ⟨done, h.inOrder, hf⟩) (fun s e s' ⟨done, queue, h, hf⟩ hstep => ?_) events _
    ⟨[], [], Poller.queued_init ptyWire _, rfl, Nat.le_refl 0, rfl, rfl, fun size hsize => ?_⟩
  · rcases PtyChannel.step_cases hstep with rfl | ⟨e', he'⟩
    · exact ⟨done, queue, h, hf⟩
    · exact h.step (fun _ m _ hf => hf.handle m) (fun _ _ u hf => hf.takeSignals u) hf he'
  · exact absurd hsize (by simp [newest])

/-! ## Pointers of four bytes

`ConptyReparentPseudoConsole` writes eight bytes in any process, and
`payload_size_for` reads the size of a pointer. -/

/-- A message whose payload is not a pointer is read whole, whatever the size of one. -/
theorem ConptyCall.packet_consumes_of_ne {c : ConptyCall} (hc : c.signal ≠ 3) (ptr : Nat) :
    Consumes (pollMessage ptr) c.packet (some (c.signal, c.payload)) := by
  have hsize : payloadSizeFor ptr c.signal = payloadSizeFor 8 c.signal := by
    cases c with
    | reparent => exact absurd rfl hc
    | resize => rfl
    | clear => rfl
    | showHide => rfl
  have h := c.packet_consumes
  unfold pollMessage at h ⊢
  obtain ⟨hpos, hle, hnext⟩ := h
  refine ⟨hpos, hle, ?_⟩
  have hid : c.packet.take 2 = leBytes 2 c.signal := List.take_left' (length_leBytes ..)
  rw [hid] at hnext ⊢
  dsimp only at hnext ⊢
  rw [c.leNat_signal] at hnext ⊢
  rw [hsize]
  exact hnext

namespace PtySession

variable {s : PtyChannel}

/-- The four bytes that are left of a handle are no message. -/
theorem thrown_after_zeros (ptr : Nat) (hpc : s.pc = .peek) {rest : List UInt8} (hpipe : s.pipe = leBytes 4 0 ++ rest) :
    ∃ s', s.advances handleMessage (pollMessage ptr) 3 = some s' ∧ s'.pc = .thrown := by
  have hfull : s.pipe.isEmpty = false := by rw [hpipe]; rfl
  have htake : s.pipe.take 2 = leBytes 2 0 := by rw [hpipe]; rfl
  refine ⟨{ s with pc := .thrown, pipe := s.pipe.drop 2 }, ?_, rfl⟩
  simp only [Poller.advances, Poller.advance, hpc, hfull, Bool.false_eq_true, if_false, Option.bind_some, pollMessage, htake]
  rfl

end PtySession

/-- A poll of what these calls have written, with pointers of `ptr` bytes. It
returns when the pointers are as long as the ones that the calls write, or when
none of the calls writes one, and throws otherwise. -/
theorem poll_ends {ptr : Nat} (hptr : ptr = 4 ∨ ptr = 8) (ms : List ConptyMessage)
    (hwindow : ptr = 4 → ∀ m ∈ ms, ∀ w, m.call = .reparent w → w.toNat < 2 ^ 32) :
    ∀ {s : PtyChannel}, s.pc = .peek → s.writer = true → s.pipe = ms.flatMap (fun m => m.call.packet) →
    ∃ n s', s.advances PtySession.handleMessage (pollMessage ptr) n = some s' ∧
      s'.pc = if ptr = 8 ∨ ∀ m ∈ ms, m.call.signal ≠ 3 then .returned false else .thrown := by
  induction ms with
  | nil =>
    intro s hpc hw hpipe
    refine ⟨1, { s with pc := .returned !s.writer, seen := s.sent }, ?_, by simp [hw]⟩
    rw [List.flatMap_nil] at hpipe
    simp [Poller.advances, Poller.advance, hpc, hpipe]
  | cons m ms ih =>
    intro s hpc hw hpipe
    rw [List.flatMap_cons] at hpipe
    have hfull : s.pipe.isEmpty = false := by
      rw [List.isEmpty_eq_false_iff, hpipe]
      exact List.append_ne_nil_of_left_ne_nil (ptyWire.nonempty m) _
    by_cases hread : ptr = 8 ∨ m.call.signal ≠ 3
    · have hcons : Consumes (pollMessage ptr) m.call.packet (some (m.call.signal, m.call.payload)) := by
        rcases hread with rfl | hne
        · exact m.call.packet_consumes
        · exact m.call.packet_consumes_of_ne hne ptr
      obtain ⟨n, hn⟩ := Poller.advances_consumes PtySession.handleMessage (pollMessage ptr)
        (s := { s with pc := .within (pollMessage ptr) }) hcons rfl hpipe
      obtain ⟨k, s', hk, hs'⟩ := ih (fun h m' hm' => hwindow h m' (List.mem_cons_of_mem m hm'))
        (s := { s with
          pipe := ms.flatMap fun m => m.call.packet
          pc := .peek
          state := s.state.handleMessage (m.call.signal, m.call.payload)
          handled := s.handled ++ [(m.call.signal, m.call.payload)] }) rfl hw rfl
      refine ⟨n + 1 + k + 1, s', ?_, ?_⟩
      · rw [Poller.advances, Poller.advance, hpc]
        simp only [hfull, Bool.false_eq_true, if_false, Option.bind_some]
        rw [Poller.advances_add k hn]
        exact hk
      · rw [hs']
        congr 1
        simp only [List.forall_mem_cons, eq_iff_iff]
        tauto
    · obtain ⟨hne, hsig⟩ := not_or.mp hread
      obtain rfl : ptr = 4 := hptr.resolve_right hne
      cases hcall : m.call with
      | reparent w =>
        -- The first four bytes are read as the handle, and the four zeros behind them as an identifier.
        have hbytes : leBytes 8 w.toNat = leBytes 4 w.toNat ++ leBytes 4 0 := by
          rw [leBytes_append 4 4, Nat.div_eq_of_lt (b := 256 ^ 4) (hwindow rfl m List.mem_cons_self w hcall)]
        have hcons : Consumes (pollMessage 4) (leBytes 2 3 ++ leBytes 4 w.toNat) (some (3, leBytes 4 w.toNat)) := by
          refine consumes_read (length_leBytes ..) (by decide) ?_
          exact consumes_last (length_leBytes ..) (by decide) ⟨rfl, congrArg some (Prod.ext (leNat_leBytes_of_lt (by decide)) rfl)⟩
        have hsplit : s.pipe = (leBytes 2 3 ++ leBytes 4 w.toNat) ++ (leBytes 4 0 ++ ms.flatMap fun m => m.call.packet) := by
          rw [hpipe, hcall, ConptyCall.packet, ConptyCall.payload, hbytes]
          simp only [ConptyCall.signal, List.append_assoc]
        obtain ⟨n, hn⟩ := Poller.advances_consumes PtySession.handleMessage (pollMessage 4)
          (s := { s with pc := .within (pollMessage 4) }) hcons rfl hsplit
        obtain ⟨s', hs', hthrown⟩ := PtySession.thrown_after_zeros 4 (s := { s with
          pipe := leBytes 4 0 ++ ms.flatMap fun m => m.call.packet
          pc := .peek
          state := s.state.handleMessage (3, leBytes 4 w.toNat)
          handled := s.handled ++ [(3, leBytes 4 w.toNat)] }) rfl rfl
        refine ⟨n + 1 + 3 + 1, s', ?_, ?_⟩
        · rw [Poller.advances, Poller.advance, hpc]
          simp only [hfull, Bool.false_eq_true, if_false, Option.bind_some]
          rw [Poller.advances_add 3 hn]
          exact hs'
        · rw [hthrown, if_neg]
          rintro (h | h)
          · exact absurd h (by decide)
          · exact hsig (h m List.mem_cons_self)
      | resize => exact absurd (by simp [hcall, ConptyCall.signal]) hsig
      | clear => exact absurd (by simp [hcall, ConptyCall.signal]) hsig
      | showHide => exact absurd (by simp [hcall, ConptyCall.signal]) hsig

/-- A session with pointers of four bytes, and a terminal that resizes it and becomes its owner. -/
theorem poll_ends_reparented :
    let ms : List ConptyMessage := [⟨.resize ⟨80, 25⟩, by decide, by decide⟩, ⟨.reparent 0x10203, by decide, by decide⟩]
    ∃ n s', Poller.advances PtySession.handleMessage (pollMessage 4) n
      ({ state := { screens := { sb := .ofSize ⟨80, 25⟩ } }, pc := .peek, pipe := ms.flatMap fun m => m.call.packet } : PtyChannel) = some s' ∧
      s'.pc = .thrown := by
  intro ms
  obtain ⟨n, s', hn, hs'⟩ := @poll_ends 4 (.inl rfl) ms (fun _ m hm w hw => by
    simp only [ms, List.mem_cons, List.not_mem_nil, or_false] at hm
    rcases hm with rfl | rfl
    · exact absurd hw (by simp)
    · have := ConptyCall.reparent.inj hw
      rw [← this]
      decide)
    { state := { screens := { sb := .ofSize ⟨80, 25⟩ } }, pc := .peek, pipe := ms.flatMap fun m => m.call.packet } rfl rfl rfl
  refine ⟨n, s', hn, hs'.trans (if_neg ?_)⟩
  rintro (h | h)
  · exact absurd h (by decide)
  · exact h ⟨.reparent 0x10203, by decide, by decide⟩ (by simp [ms]) rfl

end Corehost
