import Corehost.Lib.Runs
import Corehost.Session.Sizes
import Corehost.Terminal.StreamEnd
import Corehost.Vt.Repaint

/-!
# The questions for the cursor

`request_cursor_sync` asks the terminal where its cursor is and how large a cell
is: after a resize, and behind an alternate screen during which the terminal was
resized. A write in UTF-8 goes to the terminal as it is
(`replay_utf8_to_terminal` of `write_console_payload`, `api_handlers.hpp`), so a
question that is wanted waits until the writes so far stop between two sequences
and two characters (`pipe_bridge.hpp`).

* `Synced`: no question cuts a sequence or a character, and none waits where it
  could be sent;
* `Settled.step`: what a step keeps that loses no byte of a write;
* `cursor_queries_apart`: in a run of such steps no question cuts anything, and
  each is sent as soon as it can be.
-/

namespace Corehost

open Lib
open Utf8 (Partial leadLength)

/-! ## The model -/

/-- What goes to the terminal. -/
inductive Sent where
  /-- a write of the application, passed on -/
  | replayed (bytes : List UInt8)
  /-- text of the console's own -/
  | own (text : List Char32)
  /-- the questions of `request_cursor_sync`, or the same ones at the start -/
  | query (text : List Char32)
deriving DecidableEq, Repr

/-- A session with what else the requests, the input and the answers of the terminal change. `enterNewline` is
`_enter_pending_newline`. -/
structure SyncConsole extends ScreenSession where
  disableNewlineAutoReturn : Bool := false
  enterNewline : Bool := false
  terminalCursorLost : Bool := false
  resizeSyncCursor : Coord := {}
  resizeSyncOutstanding : Int := 0
  cellSizeOutstanding : Int := 0
deriving DecidableEq, Repr

/-- A session whose writes take the path of UTF-8, with what these writes alone change. -/
structure ReplaySession where
  console : SyncConsole
  outputParser : VtParser := {}
  join : Utf8Join := {}
  replayLastByte : UInt8 := 0
  cursorSyncWanted : Bool := false
  rawOutputMidSequence : Bool := false
  sent : List Sent := []
deriving DecidableEq, Repr

def vtWriteDsrCpr : List Char32 := chars ['\x1b', '[', '6', 'n']

/-- What `request_cell_size` sends. -/
def cellSizeQuery : List Char32 := chars ['\x1b', '[', '1', '6', 't']

def vtWriteClearScreen : List Char32 := chars ['\x1b', '[', '2', 'J', '\x1b', '[', 'H']

/-- `is_line_terminator_echo`. -/
def isLineTerminatorEcho (text : List Char32) : Bool := text == [0x0D] || text == [0x0A] || text == [0x0D, 0x0A]

/-- `utf8_char_pending`. -/
def Utf8Join.utf8CharPending (j : Utf8Join) : Bool := !j.utf8Tail.isEmpty

/-- A message behind which `consume_write_console_vt_message` wants to ask for the cursor. -/
def VtConsole.wantsCursorSync (s : VtConsole) (m : Emitted) : Bool :=
  m.id == .useMainBuffer && s.altScreenCursor.hasState && s.resizedInAltScreen

/-- A message behind which it calls `mark_terminal_cursor_lost`. -/
def Emitted.losesTerminalCursor (m : Emitted) : Bool :=
  m.id == .unknownSequence && isStringSequence m.rawSequence && isInlineImageSequence m.rawSequence

/-- The messages of a write that is passed on, and whether a question is wanted. -/
def VtConsole.consumeReplayed (cw : Char32 → Int) (imageRows : List Char32 → Nat → Nat) (ms : List Emitted)
    (s : VtConsole × Bool) : Option (VtConsole × Bool) :=
  ms.foldlM (fun s m => (s.1.consumeMessage cw imageRows false m).map (·, s.2 || s.1.wantsCursorSync m)) s

/-- What `render_visible_viewport` sends. -/
def ScreenSession.snapshot (s : ScreenSession) : List Char32 :=
  let view := s.sb.viewport.rect
  let rows := (List.range (min view.bottom (s.sb.size.y - 1) - view.top + 1).toNat).map fun (k : Nat) => view.top + k
  let right := min view.right (i16 (s.sb.size.x - 1))
  let cells := rows.foldl (fun (out : List Char32 × UInt16) y =>
    let (row, lastAttr) := s.sb.vtWriteCells y view.left right out.2
    (out.1 ++ vtWriteCup (i16 (y - view.top)) 0 ++ row, lastAttr)) ([], 0xFFFF)
  let cursor := s.sb.viewport.clampedRelativePosition s.state.position
  vtWriteClearScreen ++ vtWriteAttr s.state.defaultAttributes ++ cells.1 ++ vtWriteCup cursor.y cursor.x

namespace ReplaySession

variable (decode : List UInt8 → List Char32) (cw : Char32 → Int) (imageRows : List Char32 → Nat → Nat)

/-- `run_conpty_session`, for what it sends first. -/
def start (console : SyncConsole) (inheritCursor : Bool) : ReplaySession where
  console := { console with cellSizeOutstanding := 1 }
  sent := (if inheritCursor then [.query vtWriteDsrCpr] else []) ++
    [.query cellSizeQuery, .own (chars ['\x1b', '[', '?', '9', '0', '0', '1', 'h'])]

def send (s : ReplaySession) (x : Sent) : ReplaySession := { s with sent := s.sent ++ [x] }

def requestCursorSync (s : ReplaySession) : ReplaySession :=
  { s with console := { s.console with
      resizeSyncCursor := s.console.sb.viewport.relativePosition s.console.state.position
      resizeSyncOutstanding := s.console.resizeSyncOutstanding + 1
      cellSizeOutstanding := s.console.cellSizeOutstanding + 1 } }.send (.query (vtWriteDsrCpr ++ cellSizeQuery))

def wantCursorSync (s : ReplaySession) : ReplaySession := { s with cursorSyncWanted := true }

def sendWantedCursorSync (s : ReplaySession) : ReplaySession :=
  if !s.cursorSyncWanted || s.rawOutputMidSequence then s
  else { s with cursorSyncWanted := false }.requestCursorSync

def vtWriteCupBuffer (s : ReplaySession) (position : Coord) : ReplaySession :=
  let p := s.console.sb.viewport.clampedRelativePosition position
  { s with console := { s.console with terminalCursorLost := false } }.send (.own (vtWriteCup p.y p.x))

/-- `sync_cursor_after_write`, which tracks the cursor of the terminal here. The
bounds of the input line are left out. -/
def syncCursorAfterWrite (s : ReplaySession) (position : Coord) : ReplaySession :=
  if s.console.terminalCursorLost then { s with console := { s.console with cursorValid := false } }
  else { s with console := { s.console with
      terminalCursor := s.console.sb.viewport.relativePosition position
      cursorValid := true } }

/-! ### Writes -/

/-- The echo of an Enter is not passed on: its line break is on the terminal already. -/
def swallowEnterEcho (s : ReplaySession) : ReplaySession :=
  let dest := s.console.enterDest
  ({ s with console := { s.console with
      enterNewline := false
      state := { s.console.state with position := dest } } }.vtWriteCupBuffer dest).syncCursorAfterWrite dest

/-- The bytes of a write, passed on. -/
def replay (s : ReplaySession) (bytes : List UInt8) : ReplaySession :=
  if s.console.disableNewlineAutoReturn then s.send (.replayed bytes)
  else
    let (out, last) := vtAppendStrLfToCrlf s.replayLastByte bytes
    { s with replayLastByte := last }.send (.replayed out)

/-- The loop over the text of a write, and what follows it. -/
def parseReplayed (s : ReplaySession) (text : List Char32) : Option ReplaySession :=
  let (ms, parser) := outputMessages text.length s.outputParser text
  (VtConsole.consumeReplayed cw imageRows ms (s.console.toVtConsole, s.cursorSyncWanted)).map fun (vt, wanted) =>
    let lost := ms.any Emitted.losesTerminalCursor
    { s with
      console := { s.console with
        toVtConsole := vt
        terminalCursorLost := lost || s.console.terminalCursorLost
        cursorValid := !lost && s.console.cursorValid }
      outputParser := parser
      cursorSyncWanted := wanted
      rawOutputMidSequence := !parser.inGround || s.join.utf8CharPending }.sendWantedCursorSync

/-- `write_console_payload`, for a write in UTF-8 that is passed on. -/
def writeConsolePayload (s : ReplaySession) (bytes : List UInt8) : Option ReplaySession :=
  if bytes = [] then some s
  else
    let (view, join) := s.join.joinUtf8Writes bytes
    let s := { s with join := join }
    let u32s := decode view
    if u32s = [] then some { s.send (.replayed bytes) with rawOutputMidSequence := true }
    else
      let u32s := s.console.inCharset u32s
      if isLineTerminatorEcho u32s && s.console.enterNewline then some s.swallowEnterEcho
      else
        let enterNewline := isLineTerminatorEcho u32s && s.console.enterNewline
        let s := { s with console := { s.console with enterNewline := enterNewline } }
        (s.replay bytes).parseReplayed cw imageRows u32s

/-! ### The terminal and the active buffer -/

/-- `apply_terminal_resize`. The record for the application is left out. -/
def applyTerminalResize (s : ReplaySession) (newSize : Coord) : ReplaySession :=
  { s with console := { s.console with
      toTerminalSession := s.console.toTerminalSession.applyTerminalResize newSize }
    }.wantCursorSync.sendWantedCursorSync

/-- `switch_active_screen_buffer`. -/
def switchActiveScreenBuffer (s : ReplaySession) (alt : Bool) : ReplaySession :=
  let next := s.console.toScreenSession.switchActiveScreenBuffer alt
  match s.console.behind, alt with
  | none, true =>
    ({ s with console := { s.console with toScreenSession := next, terminalCursorLost := false }
      }.send (.own (chars ['\x1b', '[', '?', '1', '0', '4', '9', 'h']))).send (.own next.snapshot)
  | some _, false =>
    let resized := s.console.resizedInAltScreen
    let s := { s with console := { s.console with toScreenSession := next }
      }.send (.own (chars ['\x1b', '[', '?', '1', '0', '4', '9', 'l']))
    let s := if resized then s.wantCursorSync.sendWantedCursorSync else s
    s.syncCursorAfterWrite s.console.state.position
  | _, _ => s

end ReplaySession

/-- What happens in such a session. -/
inductive ReplayEvent where
  | write (bytes : List UInt8)
  /-- `ResizeWindow` of PtySignal -/
  | resize (newSize : Coord)
  /-- SetConsoleActiveScreenBuffer -/
  | activate (alt : Bool)
  /-- another request, the input or an answer of the terminal, with what is sent for it -/
  | other (console : SyncConsole) (text : List Char32)

/-- The session after an event. -/
def ReplaySession.step (decode : List UInt8 → List Char32) (cw : Char32 → Int) (imageRows : List Char32 → Nat → Nat)
    (s : ReplaySession) : ReplayEvent → Option ReplaySession
  | .write bytes => s.writeConsolePayload decode cw imageRows bytes
  | .resize newSize => some (s.applyTerminalResize newSize)
  | .activate alt => some (s.switchActiveScreenBuffer alt)
  | .other console text => some ({ s with console := console }.send (.own text))

/-! ## The text of a write -/

namespace VtConsole

variable {cw : Char32 → Int} {imageRows : List Char32 → Nat → Nat} {s : VtConsole}

theorem decToUnicode_upper : ∀ ch : Nat, ch < 0x7F → 0x60 ≤ ch → (0x60 : Nat) ≤ decToUnicode ch ∧ decToUnicode ch ≠ 0x7F := by
  decide

/-- The line drawing characters are not told apart by the scanner. -/
theorem foldl_inCharset (s : VtConsole) (text : List Char32) (r : Reading) :
    (s.inCharset text).foldl Reading.next r = text.foldl Reading.next r := by
  have hone (ch : Nat) (r : Reading) :
      r.next (if 0x5F ≤ ch ∧ ch ≤ 0x7E then decToUnicode ch else ch) = r.next ch := by
    split_ifs with hch
    · by_cases h5F : ch = 0x5F
      · rw [h5F]
        rfl
      · obtain ⟨hupper, hdel⟩ := decToUnicode_upper ch (by omega) (by omega)
        rw [next_upper r hupper hdel]
        exact (@next_upper r ch (by omega) (by omega)).symm
    · rfl
  unfold inCharset
  split_ifs
  · rw [List.foldl_map]
    exact List.foldl_ext _ _ _ fun r ch _ => hone ch r
  · rfl

/-- A text that has no such characters is the text that was written. -/
theorem inCharset_eq (s : VtConsole) {text : List Char32} (h : ∀ ch ∈ s.inCharset text, (ch : Nat) < 0x5F) :
    s.inCharset text = text := by
  unfold inCharset at h ⊢
  split_ifs at h ⊢ with hmode
  · refine (List.map_congr_left fun ch hch => ?_).trans (List.map_id text)
    have hlow := h _ (List.mem_map_of_mem hch)
    clear h hch
    revert ch
    intro (ch : Nat) hlow
    split_ifs at hlow ⊢ with hrange
    · rcases Nat.eq_or_lt_of_le hrange.1 with rfl | h60
      · rfl
      · have hupper := (decToUnicode_upper ch (Nat.lt_succ_of_le hrange.2) h60).1
        exact absurd hlow (Nat.not_lt.mpr (Nat.le_trans (by decide) hupper))
    · rfl
  · rfl

theorem isSome_applyText (s : VtConsole) (text : List Char32) : (s.applyText cw false text).isSome = true := by
  rw [applyText, if_neg Bool.false_ne_true, Option.isSome_some]

theorem isSome_consumeTextRun (s : VtConsole) (text : List Char32) : (s.consumeTextRun cw false text).isSome = true := by
  unfold consumeTextRun
  split_ifs
  · rfl
  · exact isSome_applyText s text

theorem isSome_vtMsgApplyTerminalState (s : VtConsole) {id : VtMessageId} {payload : VtPayload}
    (h : ¬ (id = .resizeWindow ∧ payload.Overruns)) : (s.vtMsgApplyTerminalState cw false id payload).isSome = true := by
  unfold vtMsgApplyTerminalState
  cases id with
  | text => exact isSome_applyText _ _
  | resizeWindow => exact Option.isSome_iff_ne_none.mpr (mt resizeWindow_eq_none_iff.mp fun hover => h ⟨rfl, hover⟩)
  | _ => rfl

/-- Without the cells every message is consumed but a resize that is too wide. -/
theorem isSome_consumeMessage (s : VtConsole) {m : Emitted} (h : ¬ m.Overruns) :
    (s.consumeMessage cw imageRows false m).isSome = true := by
  obtain ⟨id, msg, raw⟩ := m
  cases id with
  | continueText => exact isSome_consumeTextRun s _
  | text => exact isSome_consumeTextRun s _
  | unknownSequence =>
    simp only [consumeMessage]
    split_ifs
    · rfl
    · rfl
    · exact isSome_consumeTextRun s _
  | osc8Hyperlink => rfl
  | charDel =>
    simp only [consumeMessage]
    split_ifs <;> rfl
  | _ =>
    simp only [consumeMessage]
    exact isSome_vtMsgApplyTerminalState _ h

/-- One of the messages wants a question, where it is consumed. -/
def WantsCursorSync (cw : Char32 → Int) (imageRows : List Char32 → Nat → Nat) (s : VtConsole) (ms : List Emitted) : Prop :=
  ∃ before m after s', ms = before ++ m :: after ∧ s.consumeMessages cw imageRows false before = some s' ∧
    s'.wantsCursorSync m = true

/-- The messages of a write are consumed, and a question is wanted behind them if it was or if one of them wants it. Or
one of them is a resize that is too wide, and the write does not end. -/
theorem consumeReplayed_spec (cw : Char32 → Int) (imageRows : List Char32 → Nat → Nat) :
    ∀ (ms : List Emitted) (s : VtConsole) (wanted : Bool),
      (consumeReplayed cw imageRows ms (s, wanted) = none ∧ ∃ m ∈ ms, m.Overruns) ∨ ∃ s' wanted',
        consumeReplayed cw imageRows ms (s, wanted) = some (s', wanted') ∧
          (wanted = true ∨ s.WantsCursorSync cw imageRows ms → wanted' = true)
  | [], s, wanted => by
    refine .inr ⟨s, wanted, rfl, ?_⟩
    rintro (h | ⟨before, m, after, s', h, -⟩)
    · exact h
    · exact absurd h.symm (by simp)
  | m :: ms, s, wanted => by
    have hcons : consumeReplayed cw imageRows (m :: ms) (s, wanted) =
        ((s.consumeMessage cw imageRows false m).map (·, wanted || s.wantsCursorSync m)).bind
          (consumeReplayed cw imageRows ms) := List.foldlM_cons ..
    cases hs₁ : s.consumeMessage cw imageRows false m with
    | none =>
      have hover : m.Overruns := by
        by_contra hno
        exact absurd (isSome_consumeMessage s hno) (by rw [hs₁]; decide)
      exact .inl ⟨by rw [hcons, hs₁]; rfl, m, List.mem_cons_self, hover⟩
    | some s₁ =>
      rw [hcons, hs₁]
      rcases consumeReplayed_spec cw imageRows ms s₁ (wanted || s.wantsCursorSync m) with
        ⟨hrest, m', hm', hover⟩ | ⟨s', wanted', hrest, hwants⟩
      · exact .inl ⟨hrest, m', List.mem_cons_of_mem m hm', hover⟩
      · refine .inr ⟨s', wanted', hrest, fun h => hwants ?_⟩
        rcases h with h | ⟨before, m', after, s₂, heq, hbefore, hm⟩
        · exact .inl (by rw [h, Bool.true_or])
        · cases before with
          | nil =>
            obtain ⟨rfl, -⟩ := List.cons_eq_cons.mp heq
            obtain rfl := Option.some_inj.mp hbefore
            exact .inl (by rw [hm, Bool.or_true])
          | cons x before =>
            obtain ⟨rfl, rfl⟩ := List.cons_eq_cons.mp heq
            rw [consumeMessages, List.foldlM_cons, hs₁] at hbefore
            exact .inr ⟨before, m', after, s₂, rfl, hbefore, hm⟩

end VtConsole

namespace VtParser

/-- A line feed between two messages. -/
theorem Tracks.next_lf {p : VtParser} {r : Reading} (h : Tracks p r) (hm : p.mode = .ground) : r.next 0x0A = r := by
  have hplace : r.place = .text := by rw [h.place, hm]; rfl
  rw [Reading.next, hplace]
  rfl

/-- The loop over a write leaves the parser where the scanner is. A line feed behind a carriage return, which the parser
does not see, is between two messages. -/
theorem tracks_outputMessages : ∀ (n : Nat) {p : VtParser} {r : Reading} {input : List Char32}, Steady p → Tracks p r →
    input.length ≤ n →
    Steady (outputMessages n p input).2 ∧ Tracks (outputMessages n p input).2 (input.foldl Reading.next r)
  | 0, p, r, [], hs, ht, _ => ⟨hs, ht⟩
  | n + 1, p, r, [], hs, ht, _ => ⟨hs, ht⟩
  | n + 1, p, r, ch :: rest, hs, ht, hn => by
    have hrun (stream : List Char32) := And.intro (Transducer.run_inv feed_agrees.inv stream hs) (ht.run stream)
    rw [outputMessages, if_neg (by simp)]
    dsimp only
    rcases hs.parse_case ch rest with ⟨hid, hc, hr⟩ | ⟨k, hk, hid, hc, hr, -⟩
    · have hall := hrun (ch :: rest)
      rw [hr] at hall
      rw [if_pos hid, hc, List.drop_length]
      cases n <;> exact ⟨hall.1, hall.2 hs⟩
    · obtain ⟨hsteady, htracks⟩ := hrun ((ch :: rest).take (k + 1))
      rw [hr] at hsteady htracks
      have hlen : ((ch :: rest).drop (k + 1)).length ≤ n := by
        rw [List.length_drop]
        omega
      have hfold : (ch :: rest).foldl Reading.next r =
          ((ch :: rest).drop (k + 1)).foldl Reading.next (((ch :: rest).take (k + 1)).foldl Reading.next r) := by
        rw [← List.foldl_append, List.take_append_drop]
      rw [if_neg hid, hc, hfold]
      generalize (ch :: rest).drop (k + 1) = after at hlen ⊢
      split_ifs with hcrlf
      · obtain ⟨-, hhead⟩ := Bool.and_eq_true_iff.mp hcrlf
        obtain ⟨after, rfl⟩ := List.head?_eq_some_iff.mp (eq_of_beq hhead)
        rw [List.foldl_cons, (htracks hs).next_lf rfl]
        exact tracks_outputMessages n hsteady (htracks hs) (Nat.le_of_succ_le hlen)
      · exact tracks_outputMessages n hsteady (htracks hs) hlen

end VtParser

/-! ## The stream that the terminal gets -/

/-- The writes that were passed on, among what was sent. -/
def replayed (sent : List Sent) : List UInt8 :=
  sent.flatMap fun
    | .replayed bytes => bytes
    | _ => []

theorem replayed_append (sent : List Sent) (x : Sent) : replayed (sent ++ [x]) = replayed sent ++ replayed [x] :=
  List.flatMap_append

/-- Every question is outside the sequences and the characters of the writes in front of it. -/
def QueriesApart (decode : List UInt8 → List Char32) (sent : List Sent) : Prop :=
  ∀ before text after, sent = before ++ .query text :: after → Apart decode (replayed before)

theorem QueriesApart.send {decode : List UInt8 → List Char32} {sent : List Sent} {x : Sent} (h : QueriesApart decode sent)
    (hx : ∀ text, x = .query text → Apart decode (replayed sent)) : QueriesApart decode (sent ++ [x]) := by
  intro before text after heq
  rcases List.eq_nil_or_concat after with rfl | ⟨after, y, rfl⟩
  · obtain ⟨rfl, hlast⟩ := List.append_inj' heq rfl
    exact hx text (List.head_eq_of_cons_eq hlast)
  · rw [List.concat_eq_append, ← List.cons_append, ← List.append_assoc] at heq
    exact h before text after (List.append_inj' heq rfl).1

namespace ReplaySession

variable {decode : List UInt8 → List Char32} {cw : Char32 → Int} {imageRows : List Char32 → Nat → Nat} {s s' : ReplaySession}

/-- No question cuts a sequence or a character, and none that is wanted waits where it could be sent. -/
structure Synced (decode : List UInt8 → List Char32) (s : ReplaySession) : Prop where
  queries : QueriesApart decode s.sent
  waiting : s.cursorSyncWanted = true → ¬ Apart decode (replayed s.sent)

/-- What the session keeps of the stream: the parser, the character that has begun, and whether the stream stops inside
one or the other. -/
structure Follows (s : ReplaySession) : Prop where
  steady : s.outputParser.Steady
  tracks : s.outputParser.Tracks (streamEnd (replayed s.sent)).reading
  tail : s.join.utf8Tail = (streamEnd (replayed s.sent)).pending
  mid : s.rawOutputMidSequence = (!s.outputParser.inGround || s.join.utf8CharPending)

structure Settled (decode : List UInt8 → List Char32) (s : ReplaySession) : Prop extends Follows s where
  queries : QueriesApart decode s.sent
  waiting : s.cursorSyncWanted = true → s.rawOutputMidSequence = true

theorem Follows.apart_iff (hs : s.Follows) (h : ReadsUtf8 decode) :
    s.rawOutputMidSequence = false ↔ Apart decode (replayed s.sent) := by
  rw [Corehost.apart_iff h, ← inGround_iff hs.tracks, ← hs.tail, hs.mid, Utf8Join.utf8CharPending]
  simp

theorem Settled.synced (hs : s.Settled decode) (h : ReadsUtf8 decode) : s.Synced decode := by
  refine ⟨hs.queries, fun hwanted hapart => ?_⟩
  have hmid := hs.waiting hwanted
  rw [(hs.apart_iff h).mpr hapart] at hmid
  exact absurd hmid (by decide)

/-- Follows what it followed before. -/
theorem Follows.of_eq (hs : s.Follows) (hparser : s'.outputParser = s.outputParser) (hjoin : s'.join.utf8Tail = s.join.utf8Tail)
    (hmid : s'.rawOutputMidSequence = s.rawOutputMidSequence) (hsent : replayed s'.sent = replayed s.sent) : s'.Follows := by
  refine ⟨hparser ▸ hs.steady, ?_, ?_, ?_⟩
  · rw [hparser, hsent]
    exact hs.tracks
  · rw [hjoin, hsent]
    exact hs.tail
  · rw [hmid, hparser, Utf8Join.utf8CharPending, hjoin]
    exact hs.mid

/-- What is sent for the questions. -/
def cursorQuery : Sent := .query (vtWriteDsrCpr ++ cellSizeQuery)

/-- A question that is wanted is sent between two sequences and two characters. -/
theorem Follows.sendWantedCursorSync (hs : s.Follows) (h : ReadsUtf8 decode) (hqueries : QueriesApart decode s.sent) :
    s.sendWantedCursorSync.Settled decode := by
  unfold ReplaySession.sendWantedCursorSync
  split_ifs with hno
  · refine ⟨hs, hqueries, fun hwanted => ?_⟩
    rw [hwanted] at hno
    exact hno
  · obtain ⟨-, hmid⟩ := not_or.mp (mt Bool.or_eq_true_iff.mpr hno)
    have hapart := (hs.apart_iff h).mp (Bool.eq_false_iff.mpr hmid)
    refine ⟨hs.of_eq rfl rfl rfl ?_, hqueries.send fun _ _ => hapart, fun hwanted => absurd hwanted Bool.false_ne_true⟩
    exact (replayed_append ..).trans (List.append_nil _)

theorem sendWantedCursorSync_sends (hwanted : s.cursorSyncWanted = true) :
    s.sendWantedCursorSync.cursorSyncWanted = true ∨ s.sendWantedCursorSync.sent = s.sent ++ [cursorQuery] := by
  unfold ReplaySession.sendWantedCursorSync
  split_ifs
  · exact .inl hwanted
  · exact .inr rfl

/-! ### Writes -/

theorem joinUtf8Writes_spec (j : Utf8Join) (bytes : List UInt8) :
    (j.joinUtf8Writes bytes).1 = completeChars (j.utf8Tail ++ bytes) ∧
      (j.joinUtf8Writes bytes).2.utf8Tail = pendingChar (j.utf8Tail ++ bytes) := by
  unfold Utf8Join.joinUtf8Writes
  dsimp only
  have hall : (if j.utf8Tail ≠ [] then if j.utf8Tail ≠ [] then j.utf8Tail ++ bytes else j.utf8Join else bytes) =
      j.utf8Tail ++ bytes := by
    split_ifs with htail
    · rfl
    · rw [not_not.mp htail, List.nil_append]
  rw [hall]
  exact ⟨rfl, rfl⟩

/-- The text of a write, for the parser. -/
def writtenText (decode : List UInt8 → List Char32) (s : ReplaySession) (bytes : List UInt8) : List Char32 :=
  s.console.inCharset (decode (s.join.joinUtf8Writes bytes).1)

/-- The write is taken for the echo of an Enter. -/
def Swallows (decode : List UInt8 → List Char32) (s : ReplaySession) (bytes : List UInt8) : Prop :=
  isLineTerminatorEcho (s.writtenText decode bytes) = true ∧ s.console.enterNewline = true

/-- What a write with a text is, when it is passed on. A resize in it that is too wide has no end. -/
theorem parseReplayed_spec (cw : Char32 → Int) (imageRows : List Char32 → Nat → Nat) (s : ReplaySession)
    (text : List Char32) :
    (s.parseReplayed cw imageRows text = none ∧ ∃ m ∈ (outputMessages text.length s.outputParser text).1, m.Overruns) ∨
    ∃ console wanted,
    s.parseReplayed cw imageRows text = some { s with
      console := console
      outputParser := (outputMessages text.length s.outputParser text).2
      cursorSyncWanted := wanted
      rawOutputMidSequence := !(outputMessages text.length s.outputParser text).2.inGround || s.join.utf8CharPending
      }.sendWantedCursorSync ∧
    (s.cursorSyncWanted = true ∨
      s.console.WantsCursorSync cw imageRows (outputMessages text.length s.outputParser text).1 → wanted = true) := by
  rw [parseReplayed]
  dsimp only
  rcases VtConsole.consumeReplayed_spec cw imageRows (outputMessages text.length s.outputParser text).1
    s.console.toVtConsole s.cursorSyncWanted with ⟨hconsume, hover⟩ | ⟨vt, wanted, hconsume, hwants⟩
  · rw [hconsume]
    exact .inl ⟨rfl, hover⟩
  · rw [hconsume, Option.map_some]
    exact .inr ⟨_, wanted, rfl, hwants⟩

theorem replay_eq (s : ReplaySession) (bytes : List UInt8) : ∃ out last,
    s.replay bytes = { s with replayLastByte := last, sent := s.sent ++ [.replayed out] } ∧
      ∀ stream, streamEnd (stream ++ out) = streamEnd (stream ++ bytes) := by
  unfold replay
  split_ifs
  · exact ⟨bytes, s.replayLastByte, rfl, fun _ => rfl⟩
  · exact ⟨_, _, rfl, fun stream => streamEnd_lfToCrlf _ bytes stream⟩

theorem swallowEnterEcho_eq (s : ReplaySession) : ∃ console text,
    s.swallowEnterEcho = { s with console := console, sent := s.sent ++ [.own text] } := by
  unfold swallowEnterEcho syncCursorAfterWrite
  dsimp only
  split_ifs
  · exact ⟨_, _, rfl⟩
  · exact ⟨_, _, rfl⟩

theorem isLineTerminatorEcho_lt {text : List Char32} (h : isLineTerminatorEcho text = true) :
    text ≠ [] ∧ ∀ ch ∈ text, (ch : Nat) < 0x5F := by
  rcases Bool.or_eq_true_iff.mp h with h | h
  · rcases Bool.or_eq_true_iff.mp h with h | h
    all_goals
      rw [eq_of_beq h]
      decide
  · rw [eq_of_beq h]
    decide

theorem leadLength_of_lt {b : UInt8} (h : b.toNat < 0x80) : leadLength b = 1 := by
  have hlt {k : UInt8} (hk : 0x80 ≤ k.toNat) : ¬ b ≥ k := fun hge =>
    Nat.not_lt.mpr (Nat.le_trans hk (UInt8.le_iff_toNat_le.mp hge)) h
  rw [leadLength, if_neg (hlt (by decide)), if_neg (hlt (by decide)), if_neg (hlt (by decide))]

/-- A write that is swallowed begins between two characters, and is a line terminator with nothing behind it but a
character that begins. -/
theorem swallows_bytes (hs : s.Follows) (h : ReadsUtf8 decode) {bytes : List UInt8} (hswallow : s.Swallows decode bytes) :
    s.join.utf8Tail = [] ∧ ∃ eol, isLineTerminatorEcho (eol.map UInt8.toNat) = true ∧
      bytes = eol ++ (s.join.joinUtf8Writes bytes).2.utf8Tail := by
  obtain ⟨hview, htail⟩ := joinUtf8Writes_spec s.join bytes
  obtain ⟨hecho, -⟩ := hswallow
  unfold writtenText at hecho
  obtain ⟨hne, hlow⟩ := isLineTerminatorEcho_lt hecho
  rw [VtConsole.inCharset_eq _ hlow] at hecho hne hlow
  have hmap := h.eq_map fun ch hch => Nat.lt_trans (hlow ch hch) (by decide)
  rw [hmap] at hecho hne hlow
  have hsplit := complete_append_pending (s.join.utf8Tail ++ bytes)
  rw [← hview, ← htail] at hsplit
  have hnil : s.join.utf8Tail = [] := by
    rw [hs.tail]
    rcases pendingChar_cases (replayed s.sent) with ⟨-, hnil⟩ | ⟨lead, rest, hpartial⟩
    · exact hnil
    · obtain ⟨b, view, hcons⟩ := List.exists_cons_of_ne_nil (mt (congrArg (List.map UInt8.toNat)) hne)
      have hb := hlow b.toNat (by rw [hcons]; exact List.mem_cons_self)
      have htail' : s.join.utf8Tail = lead :: rest := hs.tail.trans hpartial.eq
      rw [hcons, htail', List.cons_append, List.cons_append] at hsplit
      have hlength := hpartial.length
      rw [← List.head_eq_of_cons_eq hsplit, leadLength_of_lt (Nat.lt_trans hb (by decide))] at hlength
      exact absurd hlength (by omega)
  refine ⟨hnil, _, hecho, ?_⟩
  rw [hsplit, hnil, List.nil_append]

/-- An Enter was echoed, and the line terminator for it comes with the beginning of a character behind it. -/
def LosesBytes (s : ReplaySession) : ReplayEvent → Prop
  | .write bytes => s.console.enterNewline = true ∧ s.join.utf8Tail = [] ∧
    ∃ eol t lead rest, isLineTerminatorEcho (eol.map UInt8.toNat) = true ∧ Partial t lead rest ∧ bytes = eol ++ t
  | _ => False

/-- What does not begin with a line terminator loses no bytes. -/
theorem not_losesBytes {b : UInt8} {rest : List UInt8} (hcr : b ≠ 0x0D) (hlf : b ≠ 0x0A) :
    ¬ s.LosesBytes (.write (b :: rest)) := by
  rintro ⟨-, -, eol, t, lead, rest', hecho, -, heq⟩
  cases eol with
  | nil => exact absurd hecho (by decide)
  | cons x eol =>
    obtain ⟨rfl, -⟩ := List.cons_eq_cons.mp heq
    have hne {k : UInt8} (hk : b ≠ k) : b.toNat ≠ k.toNat := mt UInt8.toNat_inj.mp hk
    have hcr' : b.toNat ≠ 13 := hne hcr
    have hlf' : b.toNat ≠ 10 := hne hlf
    simp [isLineTerminatorEcho, hcr', hlf'] at hecho

/-- A write has a resize to more columns than `init_tab_stops` ends on. -/
def Overruns (decode : List UInt8 → List Char32) (s : ReplaySession) : ReplayEvent → Prop
  | .write bytes =>
    ∃ m ∈ (outputMessages (s.writtenText decode bytes).length s.outputParser (s.writtenText decode bytes)).1, m.Overruns
  | _ => False

/-- What a write does. -/
inductive WriteCase (decode : List UInt8 → List Char32) (cw : Char32 → Int) (imageRows : List Char32 → Nat → Nat)
    (s : ReplaySession) (bytes : List UInt8) (s' : ReplaySession) : Prop
  | nothing (hnil : bytes = []) (hs' : s' = s)
  /-- it is the beginning of a character -/
  | begun (hne : bytes ≠ []) (hview : (s.join.joinUtf8Writes bytes).1 = [])
      (hs' : s' = { s with
        join := (s.join.joinUtf8Writes bytes).2
        rawOutputMidSequence := true
        sent := s.sent ++ [.replayed bytes] })
  | swallowed (hswallow : s.Swallows decode bytes) (console : SyncConsole) (text : List Char32)
      (hs' : s' = { s with
        console := console
        join := (s.join.joinUtf8Writes bytes).2
        sent := s.sent ++ [.own text] })
  /-- it is passed on and parsed -/
  | passed (hpass : ¬ s.Swallows decode bytes) (console : SyncConsole) (out : List UInt8) (last : UInt8) (wanted : Bool)
      (hout : ∀ stream, streamEnd (stream ++ out) = streamEnd (stream ++ bytes))
      (hwanted : s.cursorSyncWanted = true ∨ s.console.WantsCursorSync cw imageRows
        (outputMessages (s.writtenText decode bytes).length s.outputParser (s.writtenText decode bytes)).1 → wanted = true)
      (hs' : s' = ReplaySession.sendWantedCursorSync
        { console := console
          outputParser :=
            (outputMessages (s.writtenText decode bytes).length s.outputParser (s.writtenText decode bytes)).2
          join := (s.join.joinUtf8Writes bytes).2
          replayLastByte := last
          cursorSyncWanted := wanted
          rawOutputMidSequence :=
            !(outputMessages (s.writtenText decode bytes).length s.outputParser (s.writtenText decode bytes)).2.inGround ||
              (s.join.joinUtf8Writes bytes).2.utf8CharPending
          sent := s.sent ++ [.replayed out] })

/-- A write ends in one of these ways, or resizes too wide and does not end. -/
theorem writeConsolePayload_cases (h : ReadsUtf8 decode) (s : ReplaySession) (bytes : List UInt8) :
    (s.writeConsolePayload decode cw imageRows bytes = none ∧ s.Overruns decode (.write bytes)) ∨
      ∃ s', s.writeConsolePayload decode cw imageRows bytes = some s' ∧ s.WriteCase decode cw imageRows bytes s' := by
  unfold writeConsolePayload
  dsimp only
  by_cases hnil : bytes = []
  · rw [if_pos hnil]
    exact .inr ⟨s, rfl, .nothing hnil rfl⟩
  rw [if_neg hnil]
  by_cases hbegun : decode (s.join.joinUtf8Writes bytes).1 = []
  · rw [if_pos hbegun]
    exact .inr ⟨_, rfl, .begun hnil (h.eq_nil_iff.mp hbegun) rfl⟩
  have htext : s.console.inCharset (decode (s.join.joinUtf8Writes bytes).1) = s.writtenText decode bytes := rfl
  rw [if_neg hbegun, htext]
  by_cases hswallow : s.Swallows decode bytes
  · rw [if_pos (Bool.and_eq_true_iff.mpr hswallow)]
    obtain ⟨console, text, heq⟩ := swallowEnterEcho_eq { s with join := (s.join.joinUtf8Writes bytes).2 }
    exact .inr ⟨_, congrArg some heq, .swallowed hswallow console text rfl⟩
  · rw [if_neg (mt Bool.and_eq_true_iff.mp hswallow)]
    obtain ⟨out, last, hreplay, hout⟩ := replay_eq { s with
      join := (s.join.joinUtf8Writes bytes).2
      console := { s.console with
        enterNewline := isLineTerminatorEcho (s.writtenText decode bytes) && s.console.enterNewline } } bytes
    rw [hreplay]
    rcases parseReplayed_spec cw imageRows
      { s with
        join := (s.join.joinUtf8Writes bytes).2
        console := { s.console with
          enterNewline := isLineTerminatorEcho (s.writtenText decode bytes) && s.console.enterNewline }
        replayLastByte := last
        sent := s.sent ++ [.replayed out] } (s.writtenText decode bytes) with hnone | ⟨console, wanted, hparse, hwanted⟩
    · exact .inl hnone
    · exact .inr ⟨_, hparse, .passed hswallow console out last wanted hout hwanted rfl⟩

/-- A write that loses no bytes keeps what the session follows, and a question that is wanted is sent behind it. -/
theorem Settled.write (hs : s.Settled decode) (h : ReadsUtf8 decode) {bytes : List UInt8}
    (hkeeps : ¬ s.LosesBytes (.write bytes)) (hcase : s.WriteCase decode cw imageRows bytes s') : s'.Settled decode := by
  obtain ⟨hview, htail⟩ := joinUtf8Writes_spec s.join bytes
  have hend : streamEnd (replayed s.sent ++ bytes) =
      ⟨(s.join.joinUtf8Writes bytes).1.foldl readByte (streamEnd (replayed s.sent)).reading,
        (s.join.joinUtf8Writes bytes).2.utf8Tail⟩ := by
    rw [streamEnd_append, ← hs.tail, hview, htail]
  rcases hcase with ⟨-, rfl⟩ | ⟨hne, hnil, rfl⟩ | ⟨hswallow, console, text, rfl⟩ |
    ⟨hpass, console, out, last, wanted, hout, hwanted, rfl⟩
  · exact hs
  · have hall := complete_append_pending (s.join.utf8Tail ++ bytes)
    rw [← hview, hnil, List.nil_append, ← htail] at hall
    rw [hnil] at hend
    have hreplayed : replayed (s.sent ++ [.replayed bytes]) = replayed s.sent ++ bytes := by
      rw [replayed_append]
      exact congrArg (replayed s.sent ++ ·) (List.append_nil bytes)
    refine ⟨⟨hs.steady, ?_, ?_, ?_⟩, hs.queries.send fun _ hx => (nomatch hx), fun _ => rfl⟩
    · rw [hreplayed, hend]
      exact hs.tracks
    · rw [hreplayed, hend]
    · rw [Utf8Join.utf8CharPending, hall]
      simp [hne]
  · have hkept : (s.join.joinUtf8Writes bytes).2.utf8Tail = [] := by
      by_contra hlost
      obtain ⟨hnil, eol, hecho, heq⟩ := swallows_bytes hs.toFollows h hswallow
      rcases pendingChar_cases (s.join.utf8Tail ++ bytes) with ⟨-, hpending⟩ | ⟨lead, rest, hpartial⟩
      · exact hlost (htail.trans hpending)
      · exact hkeeps ⟨hswallow.2, hnil, eol, _, lead, rest, hecho, htail ▸ hpartial, heq⟩
    have hnil := (swallows_bytes hs.toFollows h hswallow).1
    refine ⟨hs.toFollows.of_eq rfl (hkept.trans hnil.symm) rfl ?_, hs.queries.send fun _ hx => (nomatch hx), hs.waiting⟩
    exact (replayed_append ..).trans (List.append_nil _)
  · have hreplayed : streamEnd (replayed (s.sent ++ [.replayed out])) = streamEnd (replayed s.sent ++ bytes) := by
      rw [replayed_append, ← hout]
      exact congrArg (fun rest => streamEnd (replayed s.sent ++ rest)) (List.append_nil out)
    obtain ⟨hsteady, htracks⟩ := @VtParser.tracks_outputMessages _ _ _ (s.writtenText decode bytes) hs.steady hs.tracks
      (Nat.le_refl _)
    rw [writtenText, VtConsole.foldl_inCharset, foldl_decode h] at htracks
    refine Follows.sendWantedCursorSync ⟨hsteady, ?_, ?_, rfl⟩ h (hs.queries.send fun _ hx => (nomatch hx))
    · rw [hreplayed, hend]
      exact htracks
    · rw [hreplayed, hend]

/-! ### The other events -/

theorem Settled.own (hs : s.Settled decode) (console : SyncConsole) (text : List Char32) :
    ({ s with console := console }.send (.own text)).Settled decode := by
  refine ⟨hs.toFollows.of_eq rfl rfl rfl ?_, hs.queries.send fun _ hx => (nomatch hx), hs.waiting⟩
  exact (replayed_append ..).trans (List.append_nil _)

theorem Settled.wantCursorSync (hs : s.Settled decode) (h : ReadsUtf8 decode) :
    s.wantCursorSync.sendWantedCursorSync.Settled decode := by
  have hfollows : s.wantCursorSync.Follows := hs.toFollows.of_eq rfl rfl rfl rfl
  exact hfollows.sendWantedCursorSync h hs.queries

theorem Settled.of_console (hs : s.Settled decode) (console : SyncConsole) : Settled decode { s with console := console } :=
  ⟨hs.toFollows.of_eq rfl rfl rfl rfl, hs.queries, hs.waiting⟩

/-! ### A step -/

/-- The event asks for the cursor. -/
def Asks (decode : List UInt8 → List Char32) (cw : Char32 → Int) (imageRows : List Char32 → Nat → Nat) (s : ReplaySession) :
    ReplayEvent → Prop
  | .write bytes => bytes ≠ [] ∧ ¬ s.Swallows decode bytes ∧ s.console.WantsCursorSync cw imageRows
    (outputMessages (s.writtenText decode bytes).length s.outputParser (s.writtenText decode bytes)).1
  | .resize _ => True
  | .activate alt => s.console.behind ≠ none ∧ alt = false ∧ s.console.resizedInAltScreen = true
  | .other _ _ => False

/-- A question that was wanted is still wanted, or is the last thing that was sent. -/
def SentOrWanted (s s' : ReplaySession) : Prop :=
  s'.cursorSyncWanted = true ∨ ∃ pieces, s'.sent = s.sent ++ pieces ++ [cursorQuery]

theorem sentOrWanted_sendWanted {t : ReplaySession} {pieces : List Sent} (hwanted : t.cursorSyncWanted = true)
    (hsent : t.sent = s.sent ++ pieces) : s.SentOrWanted t.sendWantedCursorSync := by
  rcases sendWantedCursorSync_sends hwanted with h | h
  · exact .inl h
  · exact .inr ⟨pieces, by rw [h, hsent]⟩

theorem syncCursorAfterWrite_eq (s : ReplaySession) (position : Coord) :
    ∃ console, s.syncCursorAfterWrite position = { s with console := console } := by
  unfold syncCursorAfterWrite
  split_ifs
  · exact ⟨_, rfl⟩
  · exact ⟨_, rfl⟩

theorem Settled.activate (hs : s.Settled decode) (h : ReadsUtf8 decode) (alt : Bool) :
    (s.switchActiveScreenBuffer alt).Settled decode ∧
      (s.cursorSyncWanted = true ∨ s.Asks decode cw imageRows (.activate alt) →
        s.SentOrWanted (s.switchActiveScreenBuffer alt)) := by
  unfold switchActiveScreenBuffer
  split
  · next hbehind =>
    refine ⟨(hs.own _ _).own _ _, ?_⟩
    rintro (hwanted | ⟨-, halt, -⟩)
    · exact .inl hwanted
    · exact absurd halt (by decide)
  · dsimp only
    split_ifs with hresized
    · obtain ⟨console, heq⟩ := syncCursorAfterWrite_eq _ _
      rw [heq]
      exact ⟨((hs.own _ _).wantCursorSync h).of_console _, fun _ => sentOrWanted_sendWanted rfl rfl⟩
    · obtain ⟨console, heq⟩ := syncCursorAfterWrite_eq _ _
      rw [heq]
      refine ⟨(hs.own _ _).of_console _, ?_⟩
      rintro (hwanted | ⟨-, -, hasks⟩)
      · exact .inl hwanted
      · exact absurd hasks hresized
  · next hno =>
    refine ⟨hs, ?_⟩
    rintro (hwanted | ⟨hbehind, halt, -⟩)
    · exact .inl hwanted
    · obtain ⟨main, hmain⟩ := Option.ne_none_iff_exists'.mp hbehind
      exact (hno main hmain halt).elim

theorem WriteCase.sentOrWanted {bytes : List UInt8} (hcase : s.WriteCase decode cw imageRows bytes s') (h : ReadsUtf8 decode)
    (hwanted : s.cursorSyncWanted = true ∨ s.Asks decode cw imageRows (.write bytes)) : s.SentOrWanted s' := by
  rcases hcase with ⟨hnil, rfl⟩ | ⟨hne, hview, rfl⟩ | ⟨hswallow, console, text, rfl⟩ |
    ⟨hpass, console, out, last, wanted, hout, hwants, rfl⟩
  · rcases hwanted with hwanted | ⟨hne, -⟩
    · exact .inl hwanted
    · exact absurd hnil hne
  · rcases hwanted with hwanted | ⟨-, -, before, m, after, vt, hms, -⟩
    · exact .inl hwanted
    · have htext : s.writtenText decode bytes = [] := by
        rw [writtenText, hview, h.nil, VtConsole.inCharset]
        split_ifs <;> rfl
      rw [htext] at hms
      exact absurd hms.symm (by simp [outputMessages])
  · rcases hwanted with hwanted | ⟨-, hpass, -⟩
    · exact .inl hwanted
    · exact absurd hswallow hpass
  · exact sentOrWanted_sendWanted (hwants (hwanted.imp_right fun hasks => hasks.2.2)) rfl

/-- A step that loses no bytes. -/
theorem Settled.step (hs : s.Settled decode) (h : ReadsUtf8 decode) {e : ReplayEvent} (hkeeps : ¬ s.LosesBytes e) :
    (s.step decode cw imageRows e = none ∧ s.Overruns decode e) ∨ ∃ s', s.step decode cw imageRows e = some s' ∧ s'.Settled decode ∧
      (s.cursorSyncWanted = true ∨ s.Asks decode cw imageRows e → s.SentOrWanted s') := by
  cases e with
  | write bytes =>
    rcases @writeConsolePayload_cases decode cw imageRows h s bytes with hnone | ⟨s', hstep, hcase⟩
    · exact .inl hnone
    · exact .inr ⟨s', hstep, hs.write h hkeeps hcase, hcase.sentOrWanted h⟩
  | resize newSize =>
    exact .inr ⟨_, rfl, (hs.of_console _).wantCursorSync h, fun _ => sentOrWanted_sendWanted rfl (List.append_nil _).symm⟩
  | activate alt => exact .inr ⟨_, rfl, hs.activate h alt⟩
  | other console text => exact .inr ⟨_, rfl, hs.own console text, fun hwanted => .inl (hwanted.resolve_right id)⟩

/-- The step sends a question that was wanted or is asked, behind everything else, if the writes so far stop between two
sequences and two characters. If they do not, the question is wanted from then on. Only a write that resizes to more
columns than `init_tab_stops` ends on has no end. -/
def SendsNext (decode : List UInt8 → List Char32) (cw : Char32 → Int) (imageRows : List Char32 → Nat → Nat)
    (s : ReplaySession) (e : ReplayEvent) : Prop :=
  (s.step decode cw imageRows e = none ∧ s.Overruns decode e) ∨
    ∃ s', s.step decode cw imageRows e = some s' ∧ (s.cursorSyncWanted = true ∨ s.Asks decode cw imageRows e →
      Apart decode (replayed s'.sent) ∧ (∃ pieces, s'.sent = s.sent ++ pieces ++ [cursorQuery]) ∨
        ¬ Apart decode (replayed s'.sent) ∧ s'.cursorSyncWanted = true)

theorem Settled.sendsNext (hs : s.Settled decode) (h : ReadsUtf8 decode) {e : ReplayEvent} (hkeeps : ¬ s.LosesBytes e) :
    s.SendsNext decode cw imageRows e := by
  rcases hs.step h hkeeps with hnone | ⟨s', hstep, hs', hsends⟩
  · exact .inl hnone
  refine .inr ⟨s', hstep, fun hwanted => ?_⟩
  rcases hsends hwanted with hwaits | ⟨pieces, hsent⟩
  · exact .inr ⟨(hs'.synced h).waiting hwaits, hwaits⟩
  · have hapart := hs'.queries _ _ _ hsent
    have hsame : replayed s'.sent = replayed (s.sent ++ pieces) := by
      rw [hsent, replayed_append]
      exact List.append_nil _
    exact .inl ⟨hsame ▸ hapart, pieces, hsent⟩

theorem settled_start (h : ReadsUtf8 decode) (console : SyncConsole) (inheritCursor : Bool) :
    (start console inheritCursor).Settled decode := by
  have hnil : Apart decode [] := (Corehost.apart_iff h []).mpr ⟨rfl, rfl⟩
  have hreplayed : replayed (start console inheritCursor).sent = [] := by
    cases inheritCursor <;> rfl
  refine ⟨⟨VtParser.steady_new, ?_, ?_, rfl⟩, ?_, fun hwanted => absurd hwanted Bool.false_ne_true⟩
  · rw [hreplayed]
    exact ⟨rfl, nofun, fun _ => rfl⟩
  · rw [hreplayed]
    rfl
  · intro before text after heq
    have hfront : replayed before = [] := by
      rw [heq] at hreplayed
      exact (List.append_eq_nil_iff.mp (List.flatMap_append.symm.trans hreplayed)).1
    rw [hfront]
    exact hnil

/-! ### Runs -/

/-- A decoder that replaces every byte of a character outside ASCII. -/
def replacingDecode (bytes : List UInt8) : List Char32 := bytes.map fun b => if b < 0x80 then b.toNat else 0xFFFD

/-- A console of three by three. -/
def smallConsole : SyncConsole where
  sb := .ofSize ⟨3, 3⟩
  screenBufferSize := ⟨3, 3⟩
  idle := .ofSize ⟨3, 3⟩

theorem readsUtf8_replacingDecode : ReadsUtf8 replacingDecode := by
  refine ⟨rfl, fun before after b hb => ?_, fun bytes hne hwide => ⟨mt List.map_eq_nil_iff.mp hne, ?_⟩⟩
  · rw [replacingDecode, List.map_append, List.map_cons, if_pos hb]
    rfl
  · intro ch hch
    obtain ⟨b, hb, rfl⟩ := List.mem_map.mp hch
    rw [if_neg (UInt8.not_lt.mpr (hwide b hb))]
    decide

/-- In a run in which no write loses bytes, no question for the cursor cuts a control sequence or a character, and each is
sent behind the first write that ends and stops outside both. -/
theorem cursor_queries_apart (h : ReadsUtf8 decode) (cw : Char32 → Int) (imageRows : List Char32 → Nat → Nat)
    (console : SyncConsole) (inheritCursor : Bool) (events : List ReplayEvent)
    (hkeeps : EveryStep (step decode cw imageRows) (fun s e => ¬ s.LosesBytes e) (start console inheritCursor) events) :
    EveryState (step decode cw imageRows) (Synced decode) (start console inheritCursor) events ∧
      EveryStep (step decode cw imageRows) (SendsNext decode cw imageRows) (start console inheritCursor) events := by
  have hstart := settled_start h console inheritCursor
  have hstep (s : ReplaySession) (e : ReplayEvent) (s' : ReplaySession) (hs : s.Settled decode) (hkeeps : ¬ s.LosesBytes e)
      (hs' : step decode cw imageRows s e = some s') : s'.Settled decode := by
    obtain ⟨t, ht, hsettled, -⟩ := (hs.step h hkeeps).resolve_left fun hnone =>
      Option.some_ne_none s' (hs'.symm.trans hnone.1)
    exact Option.some_inj.mp (ht.symm.trans hs') ▸ hsettled
  exact ⟨everyState_of_everyStep (fun s hs => hs.synced h) hstep events hstart hkeeps,
    everyStep_of_everyStep (fun s e hs hkeeps => hs.sendsNext h hkeeps) hstep events hstart hkeeps⟩

/-- A resize in the middle of `ESC [ 2 J`. -/
theorem cursor_queries_apart_resize :
    EveryState (step replacingDecode (fun _ => 1) fun _ _ => 0) (Synced replacingDecode) (start smallConsole false)
        [.write [0x1B, 0x5B, 0x32], .resize ⟨3, 3⟩, .write [0x4A]] ∧
      EveryStep (step replacingDecode (fun _ => 1) fun _ _ => 0) (SendsNext replacingDecode (fun _ => 1) fun _ _ => 0)
        (start smallConsole false) [.write [0x1B, 0x5B, 0x32], .resize ⟨3, 3⟩, .write [0x4A]] :=
  cursor_queries_apart readsUtf8_replacingDecode (fun _ => 1) (fun _ _ => 0) smallConsole false _
    ⟨not_losesBytes (by decide) (by decide), fun _ _ => ⟨id, fun _ _ => ⟨not_losesBytes (by decide) (by decide),
      fun _ _ => trivial⟩⟩⟩

/-- The echo of an Enter in the middle of `ESC [ 2 5 h`, with the first byte of a character behind it. -/
theorem not_synced_swallowed :
    ¬ EveryState (step replacingDecode (fun _ => 1) fun _ _ => 0) (Synced replacingDecode) (start smallConsole false)
      [.write [0x1B, 0x5B, 0x32], .other { smallConsole with enterNewline := true } [0x0D, 0x0A],
        .write [0x0D, 0x0A, 0xE4], .resize ⟨3, 3⟩, .write [0x35]] := by
  intro h
  have hlast := (((((h.2 _ rfl).2 _ rfl).2 _ rfl).2 _ rfl).2 _ rfl).queries
    [_, _, .replayed [0x1B, 0x5B, 0x32], _, _, .replayed [0x35]] _ [] rfl
  have hground : (VtParser.feed {} (replacingDecode [0x1B, 0x5B, 0x32, 0x35])).2.inGround = true := hlast.sequences
  exact absurd hground (by decide)

end ReplaySession

end Corehost
