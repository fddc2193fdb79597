import Corehost.Vt.TabStops

/-!
# The alternate screen in the output

`ESC [ ? 1049 h` and `ESC [ ? 1049 l` in what an application writes. Of the two
`vt_msg_apply_state` keeps the cursor and puts it back. The active buffer is
switched by requests alone (`api_router.hpp`), so the output in between goes to
the buffer that was active in front of it.

* `WritesCells`: the messages that write a cell, by the state in front of them;
* `sb_consumeMessage`: the others leave the buffer;
* `kept_consumeMessage`: nothing in between changes the cursor that is kept;
* `Between.output`: what holds between the two sequences;
* `alternate_screen_isolated`: the main screen and the cursor behind them.
-/

namespace Corehost

open Lib

/-! ## The messages that write a cell -/

namespace Console

/-- The line feed scrolls the screen or the scrolling region. -/
def LineFeedScrolls (c : Console) : Prop :=
  let y := c.state.position.y
  if c.state.scrollRegionTop = 1 ∧ c.state.scrollRegionBottom ≤ 0 then y = c.sb.viewport.rect.bottom
  else y = c.region.bottom ∧ y ≥ c.region.top

/-- The cursor, put into the viewport, is on the first row of the region. -/
def ReverseIndexScrolls (c : Console) : Prop := c.clampCursor.state.position.y = c.region.top

/-- The cursor is on a row of the scrolling region. -/
def RowInRegion (c : Console) : Prop := c.state.position.y ≥ c.region.top ∧ c.state.position.y ≤ c.region.bottom

variable {c : Console}

theorem sb_lineFeed (h : ¬ c.LineFeedScrolls) : c.applyTerminalLineFeed.sb = c.sb := by
  unfold LineFeedScrolls at h
  unfold applyTerminalLineFeed
  dsimp only at h ⊢
  by_cases hregion : c.state.scrollRegionTop = 1 ∧ c.state.scrollRegionBottom ≤ 0
  · rw [if_pos hregion] at h
    rw [if_pos hregion, if_neg h]
    rfl
  · rw [if_neg hregion] at h
    unfold region at h
    rw [if_neg hregion, if_neg h]
    rfl

theorem sb_reverseIndex (h : ¬ c.ReverseIndexScrolls) : c.applyTerminalReverseIndex.sb = c.sb := by
  unfold ReverseIndexScrolls region at h
  unfold applyTerminalReverseIndex
  dsimp only
  rw [if_neg h]
  rfl

theorem sb_scrollLinesBy (h : ¬ c.RowInRegion) (dy : Int) : (c.scrollLinesBy dy).sb = c.sb := by
  unfold scrollLinesBy
  exact congrArg Console.sb (if_neg h)

theorem not_rowInView (h : ¬ c.RowInView) :
    c.state.position.y < c.sb.viewport.rect.top ∨ c.state.position.y > c.sb.viewport.rect.bottom := by
  unfold RowInView at h
  omega

theorem sb_insertCharacters (h : ¬ c.RowInView) (count : Int) : (c.applyTerminalInsertCharacters count).sb = c.sb := by
  unfold applyTerminalInsertCharacters
  dsimp only
  rw [if_pos (not_rowInView h)]

theorem sb_deleteCharacters (h : ¬ c.RowInView) (count : Int) : (c.applyTerminalDeleteCharacters count).sb = c.sb := by
  unfold applyTerminalDeleteCharacters
  dsimp only
  rw [if_pos (not_rowInView h)]

theorem sb_eraseCharacters (h : ¬ c.RowInView) (count : Int) : (c.applyTerminalEraseCharacters count).sb = c.sb := by
  unfold applyTerminalEraseCharacters
  dsimp only
  rw [if_pos (not_rowInView h)]

theorem sb_eraseInLine {mode : Int} (h : ¬ (c.RowInView ∧ 0 ≤ mode ∧ mode ≤ 2)) :
    (c.applyTerminalEraseInLine mode).sb = c.sb := by
  unfold applyTerminalEraseInLine
  dsimp only
  by_cases hrow : c.RowInView
  · have hmode : ¬ (0 ≤ mode ∧ mode ≤ 2) := fun hm => h ⟨hrow, hm⟩
    unfold RowInView at hrow
    rw [if_neg (by omega), if_neg (by omega), if_neg (by omega), if_neg (by omega)]
  · rw [if_pos (not_rowInView hrow)]

theorem sb_eraseInDisplay {mode : Int} (h : ¬ (0 ≤ mode ∧ mode ≤ 3)) : (c.applyTerminalEraseInDisplay mode).sb = c.sb := by
  unfold applyTerminalEraseInDisplay
  dsimp only
  rw [if_neg (by omega), if_neg (by omega), if_neg (by omega)]

theorem sb_scrollingRegion (top bottom : Int) : (c.applyTerminalScrollingRegion top bottom).sb = c.sb := by
  unfold applyTerminalScrollingRegion moveTo
  dsimp only
  split_ifs <;> rfl

end Console

namespace VtConsole

variable {cw : Char32 → Int} {imageRows : List Char32 → Nat → Nat} {emitVt : Bool} {s r : VtConsole}

/-- A text that is written with its cells. -/
def WritesText (emitVt : Bool) (text : List Char32) : Prop := emitVt = true ∧ isControlRun text = false

/-- The rows that an inline image takes. -/
def imageHeight (imageRows : List Char32 → Nat → Nat) (s : VtConsole) (raw : List Char32) : Nat :=
  imageRows raw (max 1 (s.sb.viewport.rect.right - s.sb.viewport.rect.left + 1)).toNat

/-- One of the line feeds below an inline image scrolls. -/
def ImageScrolls (imageRows : List Char32 → Nat → Nat) (s : VtConsole) (raw : List Char32) : Prop :=
  isInlineImageSequence raw = true ∧
    ∃ k < s.imageHeight imageRows raw, ((applyLineFeed true)^[k] s).toConsole.LineFeedScrolls

/-- The message writes a cell of the active buffer: a text, an erasure, or
something that scrolls from where the cursor is. -/
def WritesCells (imageRows : List Char32 → Nat → Nat) (s : VtConsole) (emitVt : Bool) (m : Emitted) : Prop :=
  match m.id with
  | .continueText | .text => WritesText emitVt m.message.payload.textValue
  | .unknownSequence =>
    if isStringSequence m.rawSequence then s.ImageScrolls imageRows m.rawSequence
    else WritesText emitVt m.message.payload.textValue
  | .lineFeed => emitVt = true ∧ s.toConsole.LineFeedScrolls
  | .reverseIndex => s.toConsole.ReverseIndexScrolls
  | .insertLines | .deleteLines => s.toConsole.RowInRegion
  | .insertCharacters | .deleteCharacters | .eraseCharacters => s.toConsole.RowInView
  | .eraseInLine => s.toConsole.RowInView ∧ 0 ≤ m.message.payload.eraseModeValue ∧ m.message.payload.eraseModeValue ≤ 2
  | .eraseInDisplay => 0 ≤ m.message.payload.eraseModeValue ∧ m.message.payload.eraseModeValue ≤ 3
  | .scrollUp | .scrollDown | .resizeWindow => True
  | _ => False

/-! ## The other messages -/

theorem sb_consumeTextRun {text : List Char32} (h : ¬ WritesText emitVt text)
    (hr : s.consumeTextRun cw emitVt text = some r) : r.sb = s.sb := by
  unfold VtConsole.consumeTextRun VtConsole.applyText at hr
  split_ifs at hr with hcontrol hemit
  · exact Option.some_inj.mp hr ▸ rfl
  · exact absurd ⟨hemit, Bool.eq_false_iff.mpr hcontrol⟩ h
  · exact Option.some_inj.mp hr ▸ Console.sb_textCursorOnly cw text s.toConsole

theorem sb_lineFeeds {n : Nat} (h : ∀ k < n, ¬ ((applyLineFeed true)^[k] s).toConsole.LineFeedScrolls) :
    ((applyLineFeed true)^[n] s).sb = s.sb := by
  induction n with
  | zero => rfl
  | succ n ih =>
    rw [Function.iterate_succ_apply']
    exact (Console.sb_lineFeed (h n (by omega))).trans (ih fun k hk => h k (by omega))

theorem sb_applyMessage {id : VtMessageId} {msg : VtMessage} {raw : List Char32} (htext : id ≠ .text) (hfeed : id ≠ .lineFeed)
    (h : ¬ s.WritesCells imageRows emitVt ⟨id, msg, raw⟩) : (s.applyMessage id msg.payload).sb = s.sb := by
  unfold VtConsole.applyMessage
  dsimp only
  cases id with
  | text => exact absurd rfl htext
  | lineFeed => exact absurd rfl hfeed
  | scrollUp => exact absurd trivial h
  | scrollDown => exact absurd trivial h
  | reverseIndex => exact Console.sb_reverseIndex h
  | insertCharacters => exact Console.sb_insertCharacters h _
  | deleteCharacters => exact Console.sb_deleteCharacters h _
  | eraseCharacters => exact Console.sb_eraseCharacters h _
  | insertLines => exact Console.sb_scrollLinesBy h _
  | deleteLines => exact Console.sb_scrollLinesBy h _
  | eraseInDisplay => exact Console.sb_eraseInDisplay h
  | eraseInLine => exact Console.sb_eraseInLine h
  | setScrollingRegion => exact Console.sb_scrollingRegion ..
  | restoreCursor => exact sb_restoreCursor s
  | ansiRestoreCursor => exact sb_restoreCursor s
  | useMainBuffer => exact sb_useMainBuffer s
  | _ => rfl

theorem sb_message {id : VtMessageId} {msg : VtMessage} {raw : List Char32} (htext : id ≠ .text)
    (h : ¬ s.WritesCells imageRows emitVt ⟨id, msg, raw⟩)
    (hr : s.vtMsgApplyTerminalState cw emitVt id msg.payload = some r) : r.sb = s.sb := by
  -- the end of a pending wrap changes neither the buffer nor what the message does to it
  have hwrap : (if endsPendingWrap id then s.onConsole (·.setWrap false) else s).sb = s.sb := by
    split <;> rfl
  have hwrites : ¬ (if endsPendingWrap id then s.onConsole (·.setWrap false) else s).WritesCells imageRows emitVt
      ⟨id, msg, raw⟩ := by
    split_ifs with hends
    · cases id with
      | unknownSequence => cases hends
      | _ => exact h
    · exact h
  unfold VtConsole.vtMsgApplyTerminalState at hr
  dsimp only at hr
  generalize (if endsPendingWrap id then s.onConsole (·.setWrap false) else s) = t at *
  rw [← hwrap]
  cases id with
  | text => exact absurd rfl htext
  | lineFeed =>
    obtain rfl := Option.some_inj.mp hr
    cases emitVt with
    | true => exact Console.sb_lineFeed fun hscroll => hwrites ⟨rfl, hscroll⟩
    | false => rfl
  | resizeWindow => exact absurd trivial hwrites
  | _ => exact Option.some_inj.mp hr ▸ sb_applyMessage (nofun) (nofun) hwrites

/-- A message that writes no cell leaves the buffer. -/
theorem sb_consumeMessage {m : Emitted} (h : ¬ s.WritesCells imageRows emitVt m)
    (hr : s.consumeMessage cw imageRows emitVt m = some r) : r.sb = s.sb := by
  obtain ⟨id, msg, raw⟩ := m
  cases id with
  | continueText => exact sb_consumeTextRun h hr
  | text => exact sb_consumeTextRun h hr
  | osc8Hyperlink => exact Option.some_inj.mp hr ▸ rfl
  | unknownSequence =>
    simp only [VtConsole.consumeMessage] at hr
    simp only [VtConsole.WritesCells] at h
    split_ifs at h hr with hstring himage
    · obtain rfl := Option.some_inj.mp hr
      exact sb_lineFeeds fun k hk hscroll => h ⟨himage, k, hk, hscroll⟩
    · exact Option.some_inj.mp hr ▸ rfl
    · exact sb_consumeTextRun h hr
  | charDel =>
    simp only [VtConsole.consumeMessage] at hr
    split_ifs at hr
    · exact Option.some_inj.mp hr ▸ rfl
    · exact Option.some_inj.mp hr ▸ rfl
  | useMainBuffer =>
    simp only [VtConsole.consumeMessage] at hr
    split_ifs at hr <;> exact Option.some_inj.mp hr ▸ sb_useMainBuffer _
  | _ =>
    simp only [VtConsole.consumeMessage] at hr
    exact sb_message (by decide) h hr

/-! ## The cursor that is kept for the main screen -/

/-- The two sequences of the alternate screen. -/
def switchesScreen (id : VtMessageId) : Bool := id == .useAlternateBuffer || id == .useMainBuffer

theorem kept_applyText {text : List Char32} (hr : s.applyText cw emitVt text = some r) :
    r.altScreenCursor = s.altScreenCursor := by
  unfold VtConsole.applyText at hr
  split_ifs at hr
  · obtain ⟨w, -, rfl⟩ := Option.map_eq_some_iff.mp hr
    rfl
  · exact Option.some_inj.mp hr ▸ rfl

theorem kept_consumeTextRun {text : List Char32} (hr : s.consumeTextRun cw emitVt text = some r) :
    r.altScreenCursor = s.altScreenCursor := by
  unfold VtConsole.consumeTextRun at hr
  split_ifs at hr
  · exact Option.some_inj.mp hr ▸ rfl
  · exact kept_applyText hr

theorem kept_lineFeeds (n : Nat) : ((applyLineFeed true)^[n] s).altScreenCursor = s.altScreenCursor := by
  induction n with
  | zero => rfl
  | succ n ih =>
    rw [Function.iterate_succ_apply']
    exact ih

theorem kept_applyMessage (s : VtConsole) {id : VtMessageId} (hid : switchesScreen id = false) (payload : VtPayload) :
    (s.applyMessage id payload).altScreenCursor = s.altScreenCursor := by
  have hrestore : s.restoreCursor.altScreenCursor = s.altScreenCursor := by
    unfold restoreCursor
    split <;> rfl
  cases id with
  | useAlternateBuffer => cases hid
  | useMainBuffer => cases hid
  | restoreCursor => exact hrestore
  | ansiRestoreCursor => exact hrestore
  | _ => rfl

theorem kept_message {id : VtMessageId} (hid : switchesScreen id = false) {payload : VtPayload}
    (hr : s.vtMsgApplyTerminalState cw emitVt id payload = some r) : r.altScreenCursor = s.altScreenCursor := by
  have hwrap : (if endsPendingWrap id then s.onConsole (·.setWrap false) else s).altScreenCursor = s.altScreenCursor := by
    split <;> rfl
  unfold VtConsole.vtMsgApplyTerminalState at hr
  dsimp only at hr
  generalize (if endsPendingWrap id then s.onConsole (·.setWrap false) else s) = t at *
  rw [← hwrap]
  cases id with
  | text => exact kept_applyText hr
  | lineFeed => exact Option.some_inj.mp hr ▸ rfl
  | resizeWindow =>
    change t.resizeWindow payload.resizeValue.1 payload.resizeValue.2 = some r at hr
    unfold VtConsole.resizeWindow at hr
    split_ifs at hr
    · obtain ⟨stops, -, rfl⟩ := Option.map_eq_some_iff.mp hr
      rfl
    · exact Option.some_inj.mp hr ▸ rfl
  | _ => exact Option.some_inj.mp hr ▸ kept_applyMessage t hid payload

theorem kept_consumeMessage {m : Emitted} (hid : switchesScreen m.id = false)
    (hr : s.consumeMessage cw imageRows emitVt m = some r) : r.altScreenCursor = s.altScreenCursor := by
  obtain ⟨id, msg, raw⟩ := m
  cases id with
  | continueText => exact kept_consumeTextRun hr
  | text => exact kept_consumeTextRun hr
  | useMainBuffer => cases hid
  | osc8Hyperlink => exact Option.some_inj.mp hr ▸ rfl
  | unknownSequence =>
    simp only [VtConsole.consumeMessage] at hr
    split_ifs at hr
    · exact Option.some_inj.mp hr ▸ kept_lineFeeds _
    · exact Option.some_inj.mp hr ▸ rfl
    · exact kept_consumeTextRun hr
  | charDel =>
    simp only [VtConsole.consumeMessage] at hr
    split_ifs at hr
    · exact Option.some_inj.mp hr ▸ rfl
    · exact Option.some_inj.mp hr ▸ rfl
  | _ =>
    simp only [VtConsole.consumeMessage] at hr
    exact kept_message hid hr

/-- `ESC [ ? 1049 h` keeps the cursor. -/
theorem consumeMessage_useAlternateBuffer {m : Emitted} (hm : m.id = .useAlternateBuffer)
    (hr : s.consumeMessage cw imageRows emitVt m = some r) :
    r.sb = s.sb ∧ r.altScreenCursor.position = s.state.position ∧ r.altScreenCursor.hasState = true := by
  obtain ⟨id, msg, raw⟩ := m
  obtain rfl : id = .useAlternateBuffer := hm
  obtain rfl := Option.some_inj.mp hr
  exact ⟨rfl, rfl, rfl⟩

theorem useMainBuffer_of_hasState (h : s.altScreenCursor.hasState = true) :
    s.useMainBuffer.sb = s.sb ∧ s.useMainBuffer.state.position = s.altScreenCursor.position := by
  unfold VtConsole.useMainBuffer
  rw [if_pos h]
  exact ⟨rfl, rfl⟩

/-- `ESC [ ? 1049 l` puts it back. -/
theorem consumeMessage_useMainBuffer {m : Emitted} (hm : m.id = .useMainBuffer) (hkept : s.altScreenCursor.hasState = true)
    (hr : s.consumeMessage cw imageRows emitVt m = some r) :
    r.sb = s.sb ∧ r.state.position = s.altScreenCursor.position := by
  obtain ⟨id, msg, raw⟩ := m
  obtain rfl : id = .useMainBuffer := hm
  simp only [VtConsole.consumeMessage] at hr
  split_ifs at hr <;> obtain rfl := Option.some_inj.mp hr
  · exact useMainBuffer_of_hasState (s := ({ s with resizedInAltScreen := false }).onConsole (·.setWrap false)) hkept
  · exact useMainBuffer_of_hasState (s := s.onConsole (·.setWrap false)) hkept

end VtConsole

/-! ## The session -/

namespace TerminalSession

variable {cw : Char32 → Int} {imageRows : List Char32 → Nat → Nat} {s s' r : TerminalSession}

/-- The main screen, which is the active buffer as long as no request has
switched to another one. -/
def mainScreen (s : TerminalSession) : ScreenBuffer := s.behind.getD s.sb

/-- A message of a write, with `emit_vt` for that write. -/
def output (cw : Char32 → Int) (imageRows : List Char32 → Nat → Nat) (s : TerminalSession) (m : Bool × Emitted) :
    Option TerminalSession := (s.consumeMessage cw imageRows m.1 m.2).map fun vt => { s with toVtConsole := vt }

def outputs (cw : Char32 → Int) (imageRows : List Char32 → Nat → Nat) (ms : List (Bool × Emitted)) (s : TerminalSession) :
    Option TerminalSession := ms.foldlM (output cw imageRows) s

/-- The message writes a cell of the main screen. -/
def WritesMain (imageRows : List Char32 → Nat → Nat) (s : TerminalSession) (m : Bool × Emitted) : Prop :=
  s.behind = none ∧ s.WritesCells imageRows m.1 m.2

theorem mainScreen_output {m : Bool × Emitted} (hm : ¬ s.WritesMain imageRows m) (hr : output cw imageRows s m = some r) :
    r.mainScreen = s.mainScreen := by
  obtain ⟨vt, hvt, rfl⟩ := Option.map_eq_some_iff.mp hr
  unfold mainScreen
  dsimp only
  cases hbehind : s.behind with
  | some main => rfl
  | none => exact VtConsole.sb_consumeMessage (fun h => hm ⟨hbehind, h⟩) hvt

/-- Between the two sequences that began in `s`. -/
structure Between (s r : TerminalSession) : Prop where
  main : r.mainScreen = s.mainScreen
  kept : r.altScreenCursor.position = s.state.position
  hasState : r.altScreenCursor.hasState = true

theorem Between.output (h : Between s r) {m : Bool × Emitted} (hid : VtConsole.switchesScreen m.2.id = false)
    (hm : ¬ r.WritesMain imageRows m) (hr : r.output cw imageRows m = some s') : Between s s' := by
  refine ⟨(mainScreen_output hm hr).trans h.main, ?_, ?_⟩ <;> obtain ⟨vt, hvt, rfl⟩ := Option.map_eq_some_iff.mp hr
  · exact (congrArg SavedCursor.position (VtConsole.kept_consumeMessage hid hvt)).trans h.kept
  · exact (congrArg SavedCursor.hasState (VtConsole.kept_consumeMessage hid hvt)).trans h.hasState

/-- Between the two sequences, with the messages in between. -/
theorem Between.outputs : ∀ {ms : List (Bool × Emitted)} {r : TerminalSession}, Between s r →
    (∀ m ∈ ms, VtConsole.switchesScreen m.2.id = false) →
    EveryStep (TerminalSession.output cw imageRows) (fun t m => ¬ t.WritesMain imageRows m) r ms →
    r.outputs cw imageRows ms = some s' → Between s s'
  | [], r, h, _, _, hr => Option.some_inj.mp hr ▸ h
  | m :: ms, r, h, hids, hsteps, hr => by
    obtain ⟨t, ht, hrest⟩ := Option.bind_eq_some_iff.mp hr
    have hnext := h.output (hids m (List.mem_cons_self ..)) hsteps.1 ht
    exact hnext.outputs (fun m hm => hids m (List.mem_cons_of_mem _ hm)) (hsteps.2 t ht) hrest

/-- Output from `ESC [ ? 1049 h` to the next `ESC [ ? 1049 l`. If no message in
between writes a cell of the main screen, the main screen behind it is the one in
front of it, and the cursor is where it was. -/
theorem alternate_screen_isolated {first last : Bool × Emitted} {ms : List (Bool × Emitted)}
    (hfirst : first.2.id = .useAlternateBuffer) (hlast : last.2.id = .useMainBuffer)
    (hms : ∀ m ∈ ms, VtConsole.switchesScreen m.2.id = false)
    (hsteps : EveryStep (TerminalSession.output cw imageRows) (fun t m => ¬ t.WritesMain imageRows m) s (first :: ms))
    (hr : s.outputs cw imageRows (first :: ms ++ [last]) = some r) :
    r.mainScreen = s.mainScreen ∧ r.state.position = s.state.position := by
  obtain ⟨t, ht, hrest⟩ := Option.bind_eq_some_iff.mp hr
  have hbegin : Between s t := by
    obtain ⟨vt, hvt, rfl⟩ := Option.map_eq_some_iff.mp ht
    obtain ⟨hsb, hkept, hstate⟩ := VtConsole.consumeMessage_useAlternateBuffer hfirst hvt
    exact ⟨congrArg s.behind.getD hsb, hkept, hstate⟩
  obtain ⟨u, hu, hend⟩ := Option.bind_eq_some_iff.mp ((List.foldlM_append ..).symm.trans hrest)
  have hbetween : Between s u := hbegin.outputs hms (hsteps.2 t ht) hu
  obtain ⟨v, hv, hdone⟩ := Option.bind_eq_some_iff.mp hend
  obtain rfl : v = r := Option.some_inj.mp hdone
  obtain ⟨vt, hvt, rfl⟩ := Option.map_eq_some_iff.mp hv
  obtain ⟨hsb, hposition⟩ := VtConsole.consumeMessage_useMainBuffer hlast hbetween.hasState hvt
  exact ⟨(congrArg u.behind.getD hsb).trans hbetween.main, hposition.trans hbetween.kept⟩

/-- A new session of three columns and three rows. -/
def smallSession : TerminalSession := { smallConsole with }

/-- `ESC [ ? 1049 h`, `ESC [ 2 ; 2 H`, `ESC [ ? 1049 l`. -/
theorem alternate_screen_isolated_cursor :
    let m : VtMessageId → VtPayload → Bool × Emitted := fun id payload => (true, ⟨id, { payload := payload }, []⟩)
    ∃ r, smallSession.outputs (fun _ => 1) (fun _ _ => 0)
        [m .useAlternateBuffer .none, m .cursorPosition (.position 2 2), m .useMainBuffer .none] = some r ∧
      r.mainScreen = smallSession.mainScreen ∧ r.state.position = smallSession.state.position := by
  intro m
  obtain ⟨r, hr⟩ := Option.isSome_iff_exists.mp (show (smallSession.outputs (fun _ => 1) (fun _ _ => 0)
    [m .useAlternateBuffer .none, m .cursorPosition (.position 2 2), m .useMainBuffer .none]).isSome from by decide)
  refine ⟨r, hr, @alternate_screen_isolated (fun _ => 1) (fun _ _ => 0) smallSession r (m .useAlternateBuffer .none)
    (m .useMainBuffer .none) [m .cursorPosition (.position 2 2)] rfl rfl (fun _ h => ?_) ?_ hr⟩
  · obtain rfl := List.mem_singleton.mp h
    rfl
  · exact ⟨fun h => h.2, fun t _ => ⟨fun h => h.2, fun _ _ => trivial⟩⟩

/-- `ESC [ ? 1049 h`, an `A`, `ESC [ ? 1049 l`: the letter is on the main screen. -/
theorem alternate_screen_writes_main :
    let input := chars ['\x1b', '[', '?', '1', '0', '4', '9', 'h', 'A', '\x1b', '[', '?', '1', '0', '4', '9', 'l']
    let ms := (outputMessages input.length {} input).1
    ms.map (·.id) = [.useAlternateBuffer, .continueText, .useMainBuffer] ∧
      ((smallSession.outputs (fun _ => 1) (fun _ _ => 0) (ms.map (true, ·))).map fun r =>
        ((r.mainScreen.row 0).glyphAt 0, (smallSession.mainScreen.row 0).glyphAt 0)) = some ([0x41], [0x20]) := by
  decide

end TerminalSession

end Corehost
