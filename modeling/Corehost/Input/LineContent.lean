import Corehost.Input.Accounts
import Corehost.Input.Typing
import Corehost.Parser.Feed

/-!
# The line that is read

* `LineRun`: the bridge reads terminal input for a pending ReadConsole, in any
  chunks;
* `processByte_editing`: a byte that completes no stray message does to the
  cooked line what it means to the editor;
* `typed_line_read`: where nothing strays, the line of the read is the line that
  has been typed, and no key event is left for another reader.
-/

namespace Corehost

open Lib

/-- The cooked line is the line of the editor. -/
structure CookedLine.Is (c : CookedLine) (l : LineEditor) : Prop where
  line : Zipper.IsAt c.buf c.cursor l.line
  history : c.history = l.history

namespace CookedLine.Is

variable {c : CookedLine} {l : LineEditor}

theorem editInsert (h : c.Is l) (ch : Char32) : (c.editInsert ch).Is (l.press (.insert ch)) :=
  ⟨h.line.insert ch, congrArg CommandHistory.breakBrowse h.history⟩

theorem editBackspace (h : c.Is l) : c.editBackspace.Is (l.press .backspace) := by
  unfold CookedLine.editBackspace
  dsimp only
  split
  · rename_i hc
    exact ⟨by rw [hc]; exact (hc ▸ h.line).deleteLeft_zero, by rw [h.history]; rfl⟩
  · rename_i hc
    exact ⟨h.line.deleteLeft hc, by rw [h.history]; rfl⟩

theorem editDelete (h : c.Is l) : c.editDelete.Is (l.press .delete) := by
  have hdel := h.line.deleteRight
  unfold CookedLine.editDelete
  dsimp only
  split
  · rename_i hc
    rw [List.eraseIdx_of_length_le hc] at hdel
    exact ⟨hdel, by rw [h.history]; rfl⟩
  · exact ⟨hdel, by rw [h.history]; rfl⟩

theorem editMoveLeft (h : c.Is l) : c.editMoveLeft.Is (l.press .left) := by
  have hmove := h.line.moveLeft
  unfold CookedLine.editMoveLeft
  split
  · exact ⟨hmove, h.history⟩
  · rename_i hc
    rw [show c.cursor - 1 = c.cursor by omega] at hmove
    exact ⟨hmove, h.history⟩

theorem editMoveRight (h : c.Is l) : c.editMoveRight.Is (l.press .right) := by
  have hmove := h.line.moveRight
  have hle := h.line.le
  unfold CookedLine.editMoveRight
  split
  · rw [min_eq_left (by omega)] at hmove
    exact ⟨hmove, h.history⟩
  · rw [show min (c.cursor + 1) c.buf.length = c.cursor by omega] at hmove
    exact ⟨hmove, h.history⟩

theorem editHome (h : c.Is l) : c.editHome.Is (l.press .home) := ⟨h.line.home, h.history⟩

theorem editEnd (h : c.Is l) : c.editEnd.Is (l.press .end_) := by
  refine ⟨?_, h.history⟩
  have hat := Zipper.isAt_ofList c.buf
  rw [h.line.list] at hat
  rw [show c.editEnd = { c with cursor := c.buf.length } from rfl, h.line.list]
  exact hat

theorem historyUp (h : c.Is l) : c.historyUp.Is (l.press .historyUp) := by
  unfold CookedLine.historyUp
  rw [LineEditor.press, ← h.line.list, ← h.history]
  cases c.history.browseUp c.buf with
  | none => exact h
  | some r => exact ⟨Zipper.isAt_ofList _, rfl⟩

theorem historyDown (h : c.Is l) : c.historyDown.Is (l.press .historyDown) := by
  unfold CookedLine.historyDown
  rw [LineEditor.press, ← h.history]
  cases c.history.browseDown with
  | none => exact h
  | some r => exact ⟨Zipper.isAt_ofList _, rfl⟩

end CookedLine.Is

namespace PipeBridge

variable {δ : Type} {host : Host δ} {b c : PipeBridge δ} {m : MsgRef} {l : LineEditor}

/-! ## One byte -/

/-- A ReadConsole is pending, and its line is that of the editor. -/
structure Editing (b : PipeBridge δ) (m : MsgRef) (l : LineEditor) : Prop where
  pending : b.pending = .consoleRead m
  eof : b.vtEof = false
  aborted : b.readAborted = false
  line : b.line.Is l

/-- The read has been completed with the line of the editor. -/
structure LineRead (b c : PipeBridge δ) (m : MsgRef) (l : LineEditor) : Prop where
  pending : c.pending = .none
  inp : c.inp = b.inp
  complete : (c.msgs m).complete = some { identifier := (b.msgs m).identifier, data := .line l.text }

theorem Editing.pendingKind (h : b.Editing m l) : b.pendingKind = .consoleRead := by
  rw [PipeBridge.pendingKind, h.pending]
  rfl

theorem completePending_editing (h : b.Editing m l) : LineRead b b.completePending m l := by
  have hdata : ¬ (b.vtEof = true ∧ b.line.buf = [] ∧ b.readbuf = []) := fun hd => by
    rw [h.eof] at hd
    cases hd.1
  have hbuf : b.line.buf = l.text := h.line.line.list
  have habort : ¬ b.readAborted = true := by simp [h.aborted]
  have hfinish : LineRead b (b.finish m statusSuccess (.line b.line.buf)) m l := by
    rw [finish_eq]
    refine ⟨rfl, rfl, ?_⟩
    simp [completion, hbuf]
  simp only [completePending, h.pending, if_neg habort, if_neg hdata]
  exact ⟨hfinish.pending, hfinish.inp, hfinish.complete⟩

theorem finishLineTerminator_editing (h : b.Editing m l) (pos : Nat) (rest : List UInt8) :
    LineRead b (b.finishLineTerminator pos rest) m l := by
  rw [finishLineTerminator, queueUnprocessedVtInput_eq]
  have hdone := completePending_editing (b := { b with
    lineFound := true
    queuedVtInput := rest ++ b.queuedVtInput
    readbuf := if rest = [] then b.readbuf else b.readbuf.take pos }) ⟨h.pending, h.eof, h.aborted, h.line⟩
  exact ⟨hdone.pending, hdone.inp, hdone.complete⟩

theorem onLineTerminator_editing (h : b.Editing m l) (byte : UInt8) (pos : Nat) (rest : List UInt8) :
    LineRead b (b.onLineTerminator byte pos rest) m l := by
  obtain ⟨c, pos', rest', hlf, he⟩ := onLineTerminator_takesLf b byte pos rest
  have hc : c.Editing m l ∧ c.inp = b.inp ∧ c.msgs = b.msgs := by
    cases hlf with
    | none => exact ⟨⟨h.pending, h.eof, h.aborted, h.line⟩, rfl, rfl⟩
    | chunk => exact ⟨⟨h.pending, h.eof, h.aborted, h.line⟩, rfl, rfl⟩
    | pipe => exact ⟨⟨h.pending, h.eof, h.aborted, h.line⟩, rfl, rfl⟩
  have hdone := finishLineTerminator_editing hc.1 pos' rest'
  rw [he]
  exact ⟨hdone.pending, hdone.inp.trans hc.2.1, by rw [← hc.2.2]; exact hdone.complete⟩

/-- The editor's keys are read by the same tests as the edits. -/
theorem exists_edit_ite {P : Prop} [Decidable P] {x y : Bool × PipeBridge δ} {ks ks' : List EditKey}
    (hx : P → ∃ line, x = (false, { b with line }) ∧ line.Is (ks.foldl LineEditor.press l))
    (hy : ¬ P → ∃ line, y = (false, { b with line }) ∧ line.Is (ks'.foldl LineEditor.press l)) :
    ∃ line, (if P then x else y) = (false, { b with line }) ∧
      line.Is ((if P then ks else ks').foldl LineEditor.press l) := by
  by_cases h : P
  · simpa only [if_pos h] using hx h
  · simpa only [if_neg h] using hy h

/-- A key event edits the line as the key that it is. -/
theorem editKeyEvent_editing (h : b.Editing m l) {key : KeyEvent} (hret : key.virtualKeyCode ≠ VK_RETURN) :
    ∃ line, b.editKeyEventForConsoleRead key = (false, { b with line }) ∧
      line.Is ((eventEditKeys key).foldl LineEditor.press l) := by
  have hl := h.line
  unfold editKeyEventForConsoleRead eventEditKeys
  refine exists_edit_ite (fun _ => ⟨_, rfl, hl⟩) fun _ => ?_
  refine exists_edit_ite (fun he => absurd he hret) fun _ => ?_
  refine exists_edit_ite (fun _ => ⟨_, rfl, hl.editBackspace⟩) fun _ => ?_
  refine exists_edit_ite (fun _ => ⟨_, rfl, hl.editDelete⟩) fun _ => ?_
  refine exists_edit_ite (fun _ => ⟨_, rfl, hl.editMoveLeft⟩) fun _ => ?_
  refine exists_edit_ite (fun _ => ⟨_, rfl, hl.editMoveRight⟩) fun _ => ?_
  refine exists_edit_ite (fun _ => ⟨_, rfl, hl.editHome⟩) fun _ => ?_
  refine exists_edit_ite (fun _ => ⟨_, rfl, hl.editEnd⟩) fun _ => ?_
  refine exists_edit_ite (fun _ => ⟨_, rfl, hl.historyUp⟩) fun _ => ?_
  refine exists_edit_ite (fun _ => ⟨_, rfl, hl.historyDown⟩) fun _ => ?_
  exact exists_edit_ite (fun _ => ⟨_, rfl, hl.editInsert _⟩) fun _ => ⟨_, rfl, hl⟩

theorem isPrintable_iff {ch : Char32} : isPrintable ch = true ↔ ¬ (ch ≤ 0x1F ∨ ch = 0x7F) := by
  rw [isPrintable, Bool.and_eq_true, decide_eq_true_eq, decide_eq_true_eq, not_or, not_le]
  exact Iff.rfl

variable (host) in
/-- The characters of a text message: a control character is dropped. -/
theorem processInputText_editing (h : b.Editing m l) (msg : VtMessage) :
    ∃ line, b.processInputText host .consoleRead msg = { b with line } ∧
      line.Is ((match msg.payload with
        | .text s => (s.filter isPrintable).map EditKey.insert
        | _ => []).foldl LineEditor.press l) := by
  have hchars : ∀ (s : List Char32) (c : CookedLine) (l : LineEditor), c.Is l → ∃ line,
      s.foldl (processInputTextChar host .consoleRead) { b with line := c } = { b with line } ∧
        line.Is (((s.filter isPrintable).map EditKey.insert).foldl LineEditor.press l) := by
    intro s
    induction s with
    | nil => exact fun c l hc => ⟨c, rfl, hc⟩
    | cons ch s ih =>
      intro c l hc
      rw [List.foldl_cons]
      by_cases hp : isPrintable ch = true
      · have hno : ¬ (ch ≤ 0x1F ∨ ch = 0x7F) := isPrintable_iff.mp hp
        rw [processInputTextChar, if_neg hno, if_pos rfl, List.filter_cons_of_pos hp]
        exact ih _ _ (hc.editInsert ch)
      · have hyes : ch ≤ 0x1F ∨ ch = 0x7F := not_not.mp fun hno => hp (isPrintable_iff.mpr hno)
        rw [processInputTextChar, if_pos hyes, if_neg (fun hk => hk.1 rfl), List.filter_cons_of_neg hp]
        exact ih _ _ hc
  obtain ⟨payload, modifier⟩ := msg
  cases payload with
  | text s => exact hchars s b.line l h.line
  | _ => exact ⟨b.line, rfl, h.line⟩

theorem processInputCprResponse_eq (msg : VtMessage) : ∃ inherit sync, (b.processInputCprResponse msg).2 =
    { b with pendingInheritCursor := inherit, resizeSyncOutstanding := sync } := by
  unfold processInputCprResponse
  split
  · split_ifs
    · exact ⟨_, _, rfl⟩
    · exact ⟨_, _, rfl⟩
    · exact ⟨_, _, rfl⟩
  · exact ⟨_, _, rfl⟩

theorem modifiedF1ToF4_cases (seq : List Char32) : modifiedF1ToF4 seq = .continue_ ∨ modifiedF1ToF4 seq = .keyF1 ∨
    modifiedF1ToF4 seq = .keyF2 ∨ modifiedF1ToF4 seq = .keyF3 ∨ modifiedF1ToF4 seq = .keyF4 := by
  unfold modifiedF1ToF4
  split
  · split
    · exact .inl rfl
    · split <;> simp
  · exact .inl rfl

theorem processInputWin32Key_editing (h : b.Editing m l) {msg : VtMessage}
    (hend : (if isCtrlKey (win32KeyOf msg) b.inputMode then some LineEnd.ctrlEvent
      else if (win32KeyOf msg).keyDown ∧ (win32KeyOf msg).vk = VK_RETURN then some .enterKey else none) = none)
    (pos : Nat) (rest : List UInt8) :
    ∃ line inherit sync, b.processInputWin32Key b.pendingKind msg pos rest =
        (false, { b with line, pendingInheritCursor := inherit, resizeSyncOutstanding := sync }) ∧
      line.Is ((win32EditKeys (win32KeyOf msg)).foldl LineEditor.press l) := by
  unfold processInputWin32Key win32EditKeys
  dsimp only
  generalize win32KeyOf msg = k at hend ⊢
  split_ifs at hend with h1 h2
  rw [if_neg h1, if_pos h.pendingKind]
  by_cases hdown : k.keyDown = false
  · rw [if_pos hdown, if_pos hdown]
    exact ⟨_, _, _, rfl, h.line⟩
  · have hret : (win32EditKey k).virtualKeyCode ≠ VK_RETURN := fun hr => h2 ⟨by simpa using hdown, hr⟩
    obtain ⟨line, hline, his⟩ := editKeyEvent_editing h hret
    rw [if_neg hdown, if_neg hdown, hline]
    exact ⟨line, _, _, rfl, his⟩

variable (host) in
/-- A message that does not stray and ends nothing edits the line as the keys
that it is. -/
theorem handleMessage_editing (h : b.Editing m l) {parsed : VtParseResult} (hstray : b.isStray parsed = false)
    (hend : messageEnd b.inputMode parsed = none) (pos : Nat) (rest : List UInt8) :
    ∃ line inherit sync, b.handleMessage host (b.messageId parsed) parsed pos rest =
        (false, { b with line, pendingInheritCursor := inherit, resizeSyncOutstanding := sync }) ∧
      line.Is ((keysOf parsed).foldl LineEditor.press l) := by
  have hkind := h.pendingKind
  have hl := h.line
  have hraw : (parsed.rawSequence != []) = false → b.emitRawSequenceAsInput host parsed.rawSequence = b := by
    intro hr
    rw [show parsed.rawSequence = [] by simpa using hr]
    rfl
  have hcpr : (!(b.processInputCprResponse parsed.message).1 && parsed.rawSequence != []) = false →
      ∃ line inherit sync, b.handleMessage host .cprResponse parsed pos rest =
          (false, { b with line, pendingInheritCursor := inherit, resizeSyncOutstanding := sync }) ∧
        line.Is ([].foldl LineEditor.press l) := by
    intro hs
    obtain ⟨inherit, sync, he⟩ := processInputCprResponse_eq (b := b) parsed.message
    rcases hr : b.processInputCprResponse parsed.message with ⟨own, c⟩
    rw [hr] at he hs
    refine ⟨b.line, inherit, sync, ?_, hl⟩
    rw [handleMessage, hr]
    cases own with
    | true => exact congrArg (Prod.mk false) he
    | false =>
      rw [show parsed.rawSequence = [] by simpa using hs]
      exact congrArg (Prod.mk false) he
  unfold isStray at hstray
  unfold messageEnd at hend
  unfold keysOf
  by_cases hf : modifiedF1ToF4 parsed.rawSequence = .continue_
  · have hid : b.messageId parsed = parsed.id := by
      rw [messageId, if_neg (fun hh => hh.1 hf)]
    rw [hid] at hstray ⊢
    rw [if_neg (not_not.mpr hf)] at hend ⊢
    have hedit : ∀ {id : VtMessageId} {edit : CookedLine → CookedLine} {k : EditKey} {event : VtMessageId},
        b.handleMessage host id parsed pos rest =
          (false, b.processInputEdit host b.pendingKind edit event parsed.message) →
        (edit b.line).Is (l.press k) →
        ∃ line inherit sync, b.handleMessage host id parsed pos rest =
            (false, { b with line, pendingInheritCursor := inherit, resizeSyncOutstanding := sync }) ∧
          line.Is ([k].foldl LineEditor.press l) := by
      intro id edit k event hm hk
      rw [hm, hkind]
      exact ⟨_, _, _, rfl, hk⟩
    cases hparsed : parsed.id <;> simp only [hparsed] at hstray hend ⊢
    case text =>
      obtain ⟨line, hline, his⟩ := processInputText_editing host h parsed.message
      exact ⟨line, _, _, by rw [handleMessage, hkind, hline], his⟩
    case cursorUp | keyUp => exact hedit rfl hl.historyUp
    case cursorDown | keyDown => exact hedit rfl hl.historyDown
    case cursorForward | keyRight => exact hedit rfl hl.editMoveRight
    case cursorBackward | keyLeft => exact hedit rfl hl.editMoveLeft
    case cursorPosition | keyHome => exact hedit rfl hl.editHome
    case cursorNextLine | cursorPrevLine | keyEnd => exact hedit rfl hl.editEnd
    case keyDelete => exact hedit rfl hl.editDelete
    case charDel => exact hedit rfl hl.editBackspace
    case cursorVertAbsolute | cursorHorizAbsolute | resizeWindow => exact ⟨_, _, _, rfl, hl⟩
    case cprResponse => exact hcpr hstray
    case win32InputKey => exact processInputWin32Key_editing h hend pos rest
    case carriageReturn | lineFeed => exact nomatch hend
    all_goals first | cases hstray | exact ⟨_, _, _, congrArg (Prod.mk false) (hraw hstray), hl⟩
  · -- the text of F1 to F4 with a modifier, or a cursor report that corehost waits for
    rw [if_pos hf]
    by_cases hown : parsed.id ≠ .cprResponse ∨ b.expectingCprReply = false
    · rw [messageId, if_pos ⟨hf, hown⟩] at hstray
      rcases modifiedF1ToF4_cases parsed.rawSequence with he | he | he | he | he
      · exact absurd he hf
      all_goals
        rw [he] at hstray
        cases hstray
    · rw [not_or, not_not] at hown
      have hid : b.messageId parsed = .cprResponse := by
        rw [messageId, if_neg (fun hh => hh.2.elim (absurd hown.1) hown.2), hown.1]
      rw [hid] at hstray ⊢
      exact hcpr hstray

variable (host) in
/-- A message that is Enter completes the read. -/
theorem handleMessage_enter (h : b.Editing m l) {parsed : VtParseResult} {e : LineEnd}
    (hend : messageEnd b.inputMode parsed = some e) (he : e.isEnter = true) (pos : Nat) (rest : List UInt8) :
    (b.handleMessage host (b.messageId parsed) parsed pos rest).1 = true ∧
      LineRead b (b.handleMessage host (b.messageId parsed) parsed pos rest).2 m l ∧ keysOf parsed = [] := by
  have hkind := h.pendingKind
  by_cases hf : modifiedF1ToF4 parsed.rawSequence = .continue_
  · have hid : b.messageId parsed = parsed.id := by
      rw [messageId, if_neg (fun hh => hh.1 hf)]
    rw [hid]
    rw [messageEnd, if_neg (not_not.mpr hf)] at hend
    rw [keysOf, if_neg (not_not.mpr hf)]
    split at hend
    · rename_i hcr
      rw [hcr, handleMessage, hkind]
      dsimp only
      rw [if_neg (fun hh => hh.1 rfl)]
      exact ⟨rfl, onLineTerminator_editing h _ pos rest, rfl⟩
    · rename_i hlf
      rw [hlf, handleMessage, hkind]
      dsimp only
      rw [if_neg (fun hh => hh.1 rfl)]
      exact ⟨rfl, onLineTerminator_editing h _ pos rest, rfl⟩
    · rename_i hkey
      rw [hkey, handleMessage, hkind]
      dsimp only
      generalize hk : win32KeyOf parsed.message = k at hend ⊢
      split_ifs at hend with h1 h2
      · rw [← Option.some.inj hend] at he
        cases he
      · have hdone := completePending_editing (b := { b with lineFound := true }) ⟨h.pending, h.eof, h.aborted, h.line⟩
        have hkeys : win32EditKeys k = [] := by
          rw [win32EditKeys, if_neg (by simp [h2.1]), eventEditKeys, if_neg (by simp [win32EditKey])]
          exact if_pos h2.2
        unfold processInputWin32Key
        dsimp only
        rw [hk, if_neg h1, if_pos rfl, if_neg (by simp [h2.1]), editKeyEventForConsoleRead_enter rfl h2.2,
          queueUnprocessedVtInput_eq]
        exact ⟨rfl, ⟨hdone.pending, hdone.inp, hdone.complete⟩, hkeys⟩
    · cases hend
  · rw [messageEnd, if_pos hf] at hend
    cases hend

/-- What reading a line leaves alone besides. -/
structure SameReader (b c : PipeBridge δ) : Prop where
  inp : c.inp = b.inp
  mode : c.inputMode = b.inputMode
  controlZ : c.processControlZ = b.processControlZ
  msgs : c.msgs = b.msgs

theorem SameReader.refl (b : PipeBridge δ) : SameReader b b := ⟨rfl, rfl, rfl, rfl⟩

theorem SameReader.trans {d : PipeBridge δ} (h : SameReader b c) (h' : SameReader c d) : SameReader b d :=
  ⟨h'.inp.trans h.inp, h'.mode.trans h.mode, h'.controlZ.trans h.controlZ, h'.msgs.trans h.msgs⟩

theorem LineRead.of_same (h : LineRead c d m l) (hs : SameReader b c) : LineRead b d m l :=
  ⟨h.pending, h.inp.trans hs.inp, by rw [← hs.msgs]; exact h.complete⟩

/-- The editor after a byte. -/
def editorAfter (host : Host δ) (b : PipeBridge δ) (byte : UInt8) (l : LineEditor) : LineEditor :=
  (typedKeys host b.inputMode b.processControlZ b.scanner byte).foldl LineEditor.press l

theorem isStray_congr {parsed : VtParseResult} (hi : c.pendingInheritCursor = b.pendingInheritCursor)
    (hr : c.resizeSyncOutstanding = b.resizeSyncOutstanding) : c.isStray parsed = b.isStray parsed := by
  have hcpr : (c.processInputCprResponse parsed.message).1 = (b.processInputCprResponse parsed.message).1 := by
    unfold processInputCprResponse
    rw [hi, hr]
    split
    · split_ifs <;> rfl
    · rfl
  rw [isStray, isStray, messageId, messageId, expectingCprReply, expectingCprReply, hi, hr, hcpr]

/-- What a byte does to the line, `r` being the end that it is and the next state of the decoder and the parser. -/
structure TypesByte (b : PipeBridge δ) (m : MsgRef) (r : Option LineEnd × Scanner δ) (l : LineEditor)
    (out : Bool × PipeBridge δ) : Prop where
  go : r.1 = none → out.1 = false ∧ out.2.Editing m l ∧ out.2.scanner = r.2 ∧ SameReader b out.2
  enter : ∀ e, r.1 = some e → e.isEnter = true → out.1 = true ∧ LineRead b out.2 m l

/-- The reader of a line gets the keys, not their characters. -/
theorem processChar_message (hkind : b.pendingKind = .consoleRead) {byte : UInt8} {ch : Char32} {parsed : VtParseResult}
    {p : VtParser} (hp : b.inputParser.parse [ch] = (parsed, p)) (htext : parsed.id ≠ .continueText)
    (hcont : parsed.id ≠ .continue_) (pos : Nat) (rest : List UInt8) :
    processChar host b ch byte pos rest =
      (let r := handleMessage host ({ b with inputParser := p }.take byte (lineEndOf (b.messageId parsed)))
        (b.messageId parsed) parsed pos rest
      (r.1, { r.2 with inputParser := r.2.inputParser.reset })) := by
  unfold processChar
  rw [hp]
  dsimp only
  rw [if_neg htext, if_neg hcont]
  have hid : (if modifiedF1ToF4 parsed.rawSequence ≠ .continue_ ∧ (parsed.id ≠ .cprResponse ∨
      ({ b with inputParser := p } : PipeBridge δ).expectingCprReply = false) then modifiedF1ToF4 parsed.rawSequence
      else parsed.id) = b.messageId parsed := rfl
  have hkind' : ({ b with inputParser := p } : PipeBridge δ).pendingKind = .consoleRead := hkind
  rw [hid, hkind', if_neg]
  rw [vtInputPassthrough]
  simp

variable (host) in
theorem processChar_editing (h : b.Editing m l) (byte : UInt8) {ch : Char32}
    (hs : (b.inputParser.parse [ch]).1.id ≠ .continueText → (b.inputParser.parse [ch]).1.id ≠ .continue_ →
      b.isStray (b.inputParser.parse [ch]).1 = false) (pos : Nat) (rest : List UInt8) :
    TypesByte b m
      (if (b.inputParser.parse [ch]).1.id = .continueText then (none, ⟨b.utf8Decoder, (b.inputParser.parse [ch]).2.reset⟩)
        else if (b.inputParser.parse [ch]).1.id = .continue_ then (none, ⟨b.utf8Decoder, (b.inputParser.parse [ch]).2⟩)
        else (messageEnd b.inputMode (b.inputParser.parse [ch]).1, ⟨b.utf8Decoder, (b.inputParser.parse [ch]).2.reset⟩))
      ((if (b.inputParser.parse [ch]).1.id = .continueText then [.insert ch]
        else if (b.inputParser.parse [ch]).1.id = .continue_ then [] else keysOf (b.inputParser.parse [ch]).1).foldl
          LineEditor.press l)
      (processChar host b ch byte pos rest) := by
  rcases hparse : b.inputParser.parse [ch] with ⟨parsed, p⟩
  rw [hparse] at hs
  dsimp only at hs ⊢
  by_cases htext : parsed.id = .continueText
  · rw [if_pos htext, if_pos htext, processChar, hparse]
    dsimp only
    have hkind : ({ b with inputParser := p } : PipeBridge δ).pendingKind = .consoleRead := h.pendingKind
    rw [if_pos htext, if_pos hkind]
    exact ⟨fun _ => ⟨rfl, ⟨h.pending, h.eof, h.aborted, h.line.editInsert ch⟩, rfl, ⟨rfl, rfl, rfl, rfl⟩⟩, nofun⟩
  · rw [if_neg htext, if_neg htext]
    by_cases hcont : parsed.id = .continue_
    · rw [if_pos hcont, if_pos hcont, processChar, hparse]
      dsimp only
      rw [if_neg htext, if_pos hcont]
      exact ⟨fun _ => ⟨rfl, ⟨h.pending, h.eof, h.aborted, h.line⟩, rfl, ⟨rfl, rfl, rfl, rfl⟩⟩, nofun⟩
    · rw [if_neg hcont, if_neg hcont, processChar_message h.pendingKind hparse htext hcont]
      have hsame : SameReader b ({ b with inputParser := p }.take byte (lineEndOf (b.messageId parsed))) := ⟨rfl, rfl, rfl, rfl⟩
      have h₁ : Editing ({ b with inputParser := p }.take byte (lineEndOf (b.messageId parsed))) m l :=
        ⟨h.pending, h.eof, h.aborted, h.line⟩
      have hid : messageId ({ b with inputParser := p }.take byte (lineEndOf (b.messageId parsed))) parsed =
        b.messageId parsed := rfl
      have hstray : isStray ({ b with inputParser := p }.take byte (lineEndOf (b.messageId parsed))) parsed = false :=
        (isStray_congr (c := { b with inputParser := p }.take byte (lineEndOf (b.messageId parsed))) (b := b) rfl rfl).trans
          (hs htext hcont)
      constructor
      · intro hend
        obtain ⟨line, inherit, sync, he, hl⟩ := handleMessage_editing host h₁ hstray hend pos rest
        rw [hid] at he
        rw [he]
        exact ⟨rfl, ⟨h.pending, h.eof, h.aborted, hl⟩, rfl, ⟨rfl, rfl, rfl, rfl⟩⟩
      · intro e hend he
        obtain ⟨hstop, hread, hkeys⟩ := handleMessage_enter host h₁ hend he pos rest
        rw [hid] at hstop hread
        rw [hkeys]
        exact ⟨hstop, hread.pending, hread.inp, hread.complete⟩

/-- A byte that ends nothing and completes no stray message edits the line as
the keys that it is; one that is Enter completes the read. -/
theorem processByte_editing (h : b.Editing m l) {byte : UInt8} (hs : b.straysAt host byte = false) (pos : Nat)
    (rest : List UInt8) :
    TypesByte b m (b.scan host byte) (b.editorAfter host byte l) (b.processByte host byte pos rest) := by
  unfold processByte editorAfter typedKeys
  unfold straysAt at hs
  unfold typedMessage at hs ⊢
  by_cases hctrl : byte = 0x03 ∧ hasFlag b.inputMode ENABLE_PROCESSED_INPUT ∧ b.inputParser.inGround
  · have hscan : b.scan host byte = (some .ctrlEvent, b.scanner) := by
      unfold scan scanByte
      exact if_pos hctrl
    rw [hscan]
    exact ⟨nofun, fun e he hent => by rw [← Option.some.inj he] at hent; cases hent⟩
  · by_cases hz : b.processControlZ ∧ byte = 0x1A
    · have hscan : b.scan host byte = (some .ctrlZ, b.scanner) := by
        unfold scan scanByte
        exact (if_neg hctrl).trans (if_pos hz)
      rw [hscan]
      exact ⟨nofun, fun e he hent => by rw [← Option.some.inj he] at hent; cases hent⟩
    · have hscan : b.scan host byte = _ := scanByte_decoded hctrl hz
      have hctrl' : ¬ (byte = 0x03 ∧ hasFlag b.inputMode ENABLE_PROCESSED_INPUT ∧ b.scanner.inputParser.inGround) := hctrl
      rw [if_neg hctrl', if_neg hz] at hs ⊢
      rw [hscan, if_neg hctrl, if_neg hz]
      dsimp only [scanner] at hs ⊢
      rcases hd : host.utf8StreamDecoder b.utf8Decoder byte with ⟨_ | ch, d⟩
      · exact ⟨fun _ => ⟨rfl, ⟨h.pending, h.eof, h.aborted, h.line⟩, rfl, ⟨rfl, rfl, rfl, rfl⟩⟩, nofun⟩
      · rw [hd] at hs
        have hstray (parsed : VtParseResult) : isStray ({ b with utf8Decoder := d } : PipeBridge δ) parsed = b.isStray parsed :=
          isStray_congr (c := { b with utf8Decoder := d }) (b := b) rfl rfl
        have hdone := processChar_editing (b := { b with utf8Decoder := d }) host ⟨h.pending, h.eof, h.aborted, h.line⟩ byte
          (fun (h1 : (b.inputParser.parse [ch]).1.id ≠ .continueText) h2 => (hstray _).trans
            (by simpa [h1, h2] using hs)) pos rest
        refine ⟨fun hn => ?_, fun e he hent => ?_⟩
        · obtain ⟨h1, h2, h3, h4⟩ := hdone.go hn
          exact ⟨h1, h2, h3, ⟨h4.inp, h4.mode, h4.controlZ, h4.msgs⟩⟩
        · obtain ⟨h1, h2⟩ := hdone.enter e he hent
          exact ⟨h1, ⟨h2.pending, h2.inp, h2.complete⟩⟩

/-! ## Chunks -/

/-- No byte of the chunk, up to the one that ends the line, completes a message that strays. -/
def keepsToLine (host : Host δ) (b : PipeBridge δ) (pos : Nat) : List UInt8 → Bool
  | [] => true
  | byte :: rest =>
    !b.straysAt host byte &&
      ((b.processByte host byte (pos + 1) rest).1 ||
        keepsToLine host (b.processByte host byte (pos + 1) rest).2 (pos + 1) rest)

/-- The next state of the decoder and the parser. -/
def scanAll (host : Host δ) (mode : Nat) (controlZ : Bool) (σ : Scanner δ) (bytes : List UInt8) : Scanner δ :=
  bytes.foldl (fun σ byte => (scanByte host mode controlZ σ byte).2) σ

theorem lineTyped_append (mode : Nat) (controlZ : Bool) : ∀ (xs ys : List UInt8) (σ : Scanner δ) (l : LineEditor),
    lineTyped host mode controlZ σ l (xs ++ ys) =
      match lineTyped host mode controlZ σ l xs with
      | (some e, l) => (some e, l)
      | (none, l) => lineTyped host mode controlZ (scanAll host mode controlZ σ xs) l ys
  | [], ys, σ, l => rfl
  | x :: xs, ys, σ, l => by
    rw [List.cons_append, lineTyped, lineTyped, scanAll, List.foldl_cons]
    rcases hscan : scanByte host mode controlZ σ x with ⟨_ | e, σ'⟩
    · exact lineTyped_append mode controlZ xs ys σ' _
    · rfl

theorem processBytes_editing (rest : List UInt8) : ∀ {b : PipeBridge δ} {l : LineEditor} (pos : Nat), b.Editing m l →
    keepsToLine host b pos rest = true →
    let r := lineTyped host b.inputMode b.processControlZ b.scanner l rest
    let c := b.processBytes host pos rest
    (r.1 = none → c.Editing m r.2 ∧ c.scanner = scanAll host b.inputMode b.processControlZ b.scanner rest ∧ SameReader b c) ∧
      ∀ e, r.1 = some e → e.isEnter = true → LineRead b c m r.2 := by
  induction rest with
  | nil => exact fun pos h _ => ⟨fun _ => ⟨h, rfl, .refl _⟩, fun e he => absurd he.symm (Option.some_ne_none e)⟩
  | cons byte rest ih =>
    intro b l pos h hk
    rw [keepsToLine, Bool.and_eq_true, Bool.not_eq_true', Bool.or_eq_true] at hk
    obtain ⟨hs, hnext⟩ := hk
    have hbyte := processByte_editing h hs (pos + 1) rest
    rw [processBytes, lineTyped, scanAll, List.foldl_cons]
    have hscan : scanByte host b.inputMode b.processControlZ b.scanner byte = b.scan host byte := rfl
    rw [hscan]
    dsimp only [editorAfter] at hbyte
    generalize (typedKeys host b.inputMode b.processControlZ b.scanner byte).foldl LineEditor.press l = l' at hbyte ⊢
    generalize b.processByte host byte (pos + 1) rest = out at hbyte hnext ⊢
    obtain ⟨stop, c⟩ := out
    rcases hr : b.scan host byte with ⟨_ | e, σ⟩
    · rw [hr] at hbyte
      obtain ⟨hstop, hedit, hσ, hsame⟩ := hbyte.go rfl
      obtain rfl : stop = false := hstop
      obtain ⟨hgo, hend⟩ := ih (pos + 1) hedit (hnext.resolve_left Bool.false_ne_true)
      rw [hσ, hsame.mode, hsame.controlZ] at hgo hend
      refine ⟨fun hn => ?_, fun e he hent => (hend e he hent).of_same hsame⟩
      obtain ⟨h1, h2, h3⟩ := hgo hn
      exact ⟨h1, h2, hsame.trans h3⟩
    · rw [hr] at hbyte
      refine ⟨fun hnone => absurd hnone (Option.some_ne_none e), fun e' he hent => ?_⟩
      obtain rfl : e = e' := Option.some.inj he
      obtain ⟨hstop, hread⟩ := hbyte.enter e rfl hent
      obtain rfl : stop = true := hstop
      exact hread

/-! ## Runs -/

/-- The bridge reads terminal input for the pending read, in whatever chunks it
comes: `bytes` have been read since `b`. Every chunk meets `ok`, in the state
in which it is processed. -/
inductive LineRun (host : Host δ) (ok : PipeBridge δ → Nat → List UInt8 → Bool) (b : PipeBridge δ) :
    List UInt8 → PipeBridge δ → Prop
  | start : LineRun host ok b [] b
  /-- More has arrived, or the terminal has answered. -/
  | arrive {bytes : List UInt8} {c : PipeBridge δ} (h : LineRun host ok b bytes c) (vtIn : VtIn) (sync : Nat) :
    LineRun host ok b bytes { c with vtIn, resizeSyncOutstanding := sync }
  | idle {bytes : List UInt8} {c c' : PipeBridge δ} (h : LineRun host ok b bytes c)
    (hread : c.readAvailableVtInput = (.empty, c')) : LineRun host ok b bytes c'
  | read {bytes : List UInt8} {c c' : PipeBridge δ} (h : LineRun host ok b bytes c) (hp : c.hasPending = true)
    (hread : c.readAvailableVtInput = (.bytes, c'))
    (hok : ok (startRound { c' with lineFound := false } c.readbuf.length (c'.readbuf.drop c.readbuf.length) false)
      c.readbuf.length (c'.readbuf.drop c.readbuf.length) = true) :
    LineRun host ok b (bytes ++ c'.readbuf.drop c.readbuf.length) (c'.processNewVtInput host c.readbuf.length)

/-- What reading from the queue or the pipe changes. -/
theorem readAvailableVtInput_eq (b : PipeBridge δ) : ∃ readbuf queued sync vtIn, b.readAvailableVtInput.2 =
    { b with readbuf := readbuf, queuedVtInput := queued, resizeSyncOutstanding := sync, vtIn } := by
  unfold readAvailableVtInput
  dsimp only
  split_ifs
  · exact ⟨_, _, _, _, rfl⟩
  · exact ⟨_, _, _, _, rfl⟩
  · split <;> exact ⟨_, _, _, _, rfl⟩

/-- What `b` has become, `r` being the line typed since then. -/
structure TypedLine (host : Host δ) (b : PipeBridge δ) (m : MsgRef) (bytes : List UInt8)
    (r : Option LineEnd × LineEditor) (c : PipeBridge δ) : Prop where
  going : r.1 = none → c.Editing m r.2 ∧ c.scanner = scanAll host b.inputMode b.processControlZ b.scanner bytes ∧
    SameReader b c
  ended : ∀ e, r.1 = some e → e.isEnter = true → LineRead b c m r.2

theorem TypedLine.other {bytes : List UInt8} {r : Option LineEnd × LineEditor} (h : TypedLine host b m bytes r c)
    (readbuf queued : List UInt8) (sync : Nat) (vtIn : VtIn) : TypedLine host b m bytes r
      { c with readbuf := readbuf, queuedVtInput := queued, resizeSyncOutstanding := sync, vtIn } := by
  refine ⟨fun hn => ?_, fun e he hent => ?_⟩
  · obtain ⟨h1, h2, h3⟩ := h.going hn
    exact ⟨⟨h1.pending, h1.eof, h1.aborted, h1.line⟩, h2, ⟨h3.inp, h3.mode, h3.controlZ, h3.msgs⟩⟩
  · have h1 := h.ended e he hent
    exact ⟨h1.pending, h1.inp, h1.complete⟩

theorem TypedLine.available {c' : PipeBridge δ} {status : VtReadStatus} {bytes : List UInt8}
    {r : Option LineEnd × LineEditor} (h : TypedLine host b m bytes r c) (hread : c.readAvailableVtInput = (status, c')) :
    TypedLine host b m bytes r c' := by
  obtain ⟨readbuf, queued, sync, vtIn, he⟩ := readAvailableVtInput_eq c
  rw [hread] at he
  rw [show c' = _ from he]
  exact h.other readbuf queued sync vtIn

/-- A chunk in which nothing strays. -/
theorem processNewVtInput_editing (h : b.Editing m l) (n : Nat)
    (hk : keepsToLine host (startRound { b with lineFound := false } n (b.readbuf.drop n) false) n (b.readbuf.drop n) =
      true) :
    TypedLine host b m (b.readbuf.drop n) (lineTyped host b.inputMode b.processControlZ b.scanner l (b.readbuf.drop n))
      (b.processNewVtInput host n) := by
  have h' : (startRound { b with lineFound := false } n (b.readbuf.drop n) false).Editing m l :=
    ⟨h.pending, h.eof, h.aborted, h.line⟩
  obtain ⟨hgo, hend⟩ := processBytes_editing _ n h' hk
  refine ⟨fun hn => ?_, fun e he hent => ?_⟩
  · obtain ⟨h1, h2, h3⟩ := hgo hn
    exact ⟨h1, h2, ⟨h3.inp, h3.mode, h3.controlZ, h3.msgs⟩⟩
  · have h1 := hend e he hent
    exact ⟨h1.pending, h1.inp, h1.complete⟩

/-- A run in which nothing strays. -/
theorem LineRun.typedLine {bytes : List UInt8} (h : LineRun host (keepsToLine host) b bytes c) (hb : b.Editing m l) :
    TypedLine host b m bytes (lineTyped host b.inputMode b.processControlZ b.scanner l bytes) c := by
  induction h with
  | start => exact ⟨fun _ => ⟨hb, rfl, .refl b⟩, nofun⟩
  | @arrive bytes c h vtIn sync ih => exact ih.other c.readbuf c.queuedVtInput sync vtIn
  | idle h hread ih => exact ih.available hread
  | @read bytes c c' h hp hread hok ih =>
    have ih' := ih.available hread
    rw [lineTyped_append]
    rcases hr : lineTyped host b.inputMode b.processControlZ b.scanner l bytes with ⟨_ | e, l'⟩
    · rw [hr] at ih'
      obtain ⟨h1, h2, h3⟩ := ih'.going rfl
      have hchunk := processNewVtInput_editing h1 c.readbuf.length hok
      rw [h2, h3.mode, h3.controlZ] at hchunk
      refine ⟨fun hn => ?_, fun e he hent => (hchunk.ended e he hent).of_same h3⟩
      obtain ⟨h4, h5, h6⟩ := hchunk.going hn
      refine ⟨h4, ?_, h3.trans h6⟩
      rw [h5, h2, h3.mode, h3.controlZ, scanAll, scanAll, scanAll, ← List.foldl_append]
    · refine ⟨nofun, fun e' he' hent => ?_⟩
      have hdone := ih.ended e' (by rw [hr]; exact he') hent
      rw [hasPending, hdone.pending] at hp
      cases hp

end PipeBridge

/-! ## What a line is made of -/

/-- A Tab, or no C0 control. -/
def isLineChar (ch : Char32) : Bool := ch = 0x09 || 0x20 ≤ ch

namespace LineEditor

/-- No C0 control but Tab is in the line or in what Up and Down can put there. -/
structure Clean (l : LineEditor) : Prop where
  text : ∀ ch ∈ l.text, isLineChar ch = true
  commands : ∀ command ∈ l.history.commands, ∀ ch ∈ command, isLineChar ch = true
  saved : ∀ ch ∈ l.history.savedInput, isLineChar ch = true

variable {l : LineEditor}

theorem Clean.change (h : l.Clean) {f : Zipper Char32 → Zipper Char32}
    (hf : ∀ ch ∈ (f l.line).toList, isLineChar ch = true) : (l.change f).Clean := by
  refine ⟨hf, ?_, ?_⟩ <;> unfold LineEditor.change CommandHistory.breakBrowse <;> dsimp only <;> split
  · exact h.commands
  · exact h.commands
  · exact fun ch hc => nomatch hc
  · exact h.saved

theorem Clean.moved (h : l.Clean) {z : Zipper Char32} (hz : z.toList = l.line.toList) : Clean { l with line := z } :=
  ⟨fun ch hc => h.text ch (by rw [LineEditor.text, ← hz]; exact hc), h.commands, h.saved⟩

theorem Clean.getD (h : l.Clean) (i : Nat) : ∀ ch ∈ l.history.commands.getD i [], isLineChar ch = true := by
  intro ch hc
  rw [List.getD_eq_getElem?_getD] at hc
  cases hi : l.history.commands[i]? with
  | none => rw [hi] at hc; exact nomatch hc
  | some command =>
    rw [hi] at hc
    exact h.commands command (List.mem_of_getElem? hi) ch hc

theorem Clean.load (h : l.Clean) {r : Option (List Char32 × CommandHistory)}
    (hr : ∀ command history, r = some (command, history) → (∀ ch ∈ command, isLineChar ch = true) ∧
      history.commands = l.history.commands ∧ ∀ ch ∈ history.savedInput, isLineChar ch = true) : (l.load r).Clean := by
  cases r with
  | none => exact h
  | some r =>
    obtain ⟨h1, h2, h3⟩ := hr r.1 r.2 rfl
    exact ⟨fun ch hc => h1 ch (Zipper.toList_ofList r.1 ▸ hc), fun command hc => h.commands command (h2 ▸ hc), h3⟩

theorem Clean.press (h : l.Clean) {k : EditKey} (hk : ∀ ch, k = .insert ch → isLineChar ch = true) : (l.press k).Clean := by
  have hleft : ∀ ch ∈ l.line.left, isLineChar ch = true := fun ch hc => h.text ch (by simp [LineEditor.text, Zipper.toList, hc])
  have hright : ∀ ch ∈ l.line.right, isLineChar ch = true := fun ch hc => h.text ch (by simp [LineEditor.text, Zipper.toList, hc])
  cases k with
  | insert ch =>
    refine h.change fun c hc => ?_
    simp only [Zipper.toList_insert, List.mem_append, List.mem_reverse, List.mem_cons] at hc
    rcases hc with hc | rfl | hc
    · exact hleft c hc
    · exact hk _ rfl
    · exact hright c hc
  | backspace =>
    refine h.change fun c hc => ?_
    simp only [Zipper.toList, Zipper.deleteLeft, List.mem_append, List.mem_reverse] at hc
    exact hc.elim (fun hc => hleft c (List.mem_of_mem_tail hc)) (hright c)
  | delete =>
    refine h.change fun c hc => ?_
    simp only [Zipper.toList, Zipper.deleteRight, List.mem_append, List.mem_reverse] at hc
    exact hc.elim (hleft c) fun hc => hright c (List.mem_of_mem_tail hc)
  | left => exact h.moved (Zipper.toList_moveLeft _)
  | right => exact h.moved (Zipper.toList_moveRight _)
  | home => exact h.moved (Zipper.toList_home _)
  | end_ => exact h.moved (Zipper.toList_ofList _)
  | historyUp =>
    refine h.load fun command history hr => ?_
    unfold CommandHistory.browseUp at hr
    split_ifs at hr
    simp only [Option.some.injEq, Prod.mk.injEq] at hr
    obtain ⟨rfl, rfl⟩ := hr
    split
    · exact ⟨h.getD _, rfl, h.text⟩
    · exact ⟨h.getD _, rfl, h.saved⟩
  | historyDown =>
    refine h.load fun command history hr => ?_
    unfold CommandHistory.browseDown at hr
    split at hr
    · cases hr
    · split_ifs at hr
      · simp only [Option.some.injEq, Prod.mk.injEq] at hr
        obtain ⟨rfl, rfl⟩ := hr
        exact ⟨h.getD _, rfl, h.saved⟩
      · simp only [Option.some.injEq, Prod.mk.injEq] at hr
        obtain ⟨rfl, rfl⟩ := hr
        exact ⟨h.saved, rfl, List.forall_mem_nil _⟩

theorem Clean.pressAll (h : l.Clean) {ks : List EditKey} (hk : ∀ k ∈ ks, ∀ ch, k = .insert ch → isLineChar ch = true) :
    (ks.foldl LineEditor.press l).Clean := by
  induction ks generalizing l with
  | nil => exact h
  | cons k ks ih =>
    exact ih (h.press (hk k List.mem_cons_self)) fun k' hk' => hk k' (List.mem_cons_of_mem _ hk')

end LineEditor

theorem mem_of_mem_ite {α : Type*} {P : Prop} [Decidable P] {a : α} {xs ys : List α} (hx : a ∉ xs)
    (h : a ∈ if P then xs else ys) : a ∈ ys := by
  by_cases hP : P
  · rw [if_pos hP] at h
    exact absurd h hx
  · rwa [if_neg hP] at h

theorem eventEditKeys_line {key : KeyEvent} {ch : Char32} (h : .insert ch ∈ eventEditKeys key) : isLineChar ch = true := by
  unfold eventEditKeys at h
  have h := mem_of_mem_ite (by simp) (mem_of_mem_ite (by simp) (mem_of_mem_ite (by simp) h))
  have h := mem_of_mem_ite (by simp) (mem_of_mem_ite (by simp) (mem_of_mem_ite (by simp) h))
  have h := mem_of_mem_ite (by simp) (mem_of_mem_ite (by simp) (mem_of_mem_ite (by simp) h))
  have h := mem_of_mem_ite (by simp) h
  split at h
  · rename_i hu
    rw [List.mem_singleton, EditKey.insert.injEq] at h
    rw [h, isLineChar, Bool.or_eq_true, decide_eq_true_eq, decide_eq_true_eq]
    exact hu.symm
  · cases h

theorem keysOf_line {parsed : VtParseResult} {ch : Char32} (h : .insert ch ∈ keysOf parsed) : isLineChar ch = true := by
  unfold keysOf at h
  split at h
  · cases h
  · split at h
    · split at h
      · obtain ⟨c, hc, he⟩ := List.mem_map.mp h
        rw [EditKey.insert.injEq] at he
        have hp := (List.mem_filter.mp hc).2
        rw [isPrintable, Bool.and_eq_true] at hp
        rw [isLineChar, ← he, hp.1, Bool.or_true]
      · cases h
    · split at h
      · rw [List.mem_singleton, EditKey.insert.injEq] at h
        rw [h]
        rfl
      · cases h
    all_goals try simp at h
    unfold win32EditKeys at h
    split at h
    · cases h
    · exact eventEditKeys_line h

section

variable {δ : Type} {host : Host δ} {mode : Nat} {controlZ : Bool}

theorem typedKeys_line {σ : Scanner δ} {byte : UInt8} {ch : Char32}
    (h : .insert ch ∈ typedKeys host mode controlZ σ byte) : isLineChar ch = true := by
  unfold typedKeys typedMessage at h
  split_ifs at h
  · cases h
  · cases h
  · split at h
    · cases h
    · rename_i c parsed heq
      split at heq
      · cases heq
      · rename_i c' d hd
        obtain ⟨rfl, rfl⟩ : c' = c ∧ (σ.inputParser.parse [c']).1 = parsed := by simpa using heq
        split at h
        · rename_i htext
          rw [List.mem_singleton, EditKey.insert.injEq] at h
          have hc := VtParser.parse_text htext
          rw [isC0OrDel, Bool.or_eq_false_iff, decide_eq_false_iff_not, not_le] at hc
          rw [h, isLineChar, Bool.or_eq_true, decide_eq_true_eq, decide_eq_true_eq]
          exact .inr hc.1
        · split at h
          · cases h
          · exact keysOf_line h

variable (host mode controlZ) in
theorem LineEditor.Clean.lineTyped : ∀ (bytes : List UInt8) {σ : Scanner δ} {l : LineEditor}, l.Clean →
    (lineTyped host mode controlZ σ l bytes).2.Clean
  | [], _, _, h => h
  | byte :: bytes, σ, l, h => by
    have hpress := h.pressAll fun k (hk : k ∈ typedKeys host mode controlZ σ byte) ch he => typedKeys_line (he ▸ hk)
    rw [Corehost.lineTyped]
    rcases scanByte host mode controlZ σ byte with ⟨_ | e, σ'⟩
    · exact LineEditor.Clean.lineTyped bytes hpress
    · exact hpress

end

/-- In every run of a ReadConsole in which no byte completes a stray message: if
the line has been ended by Enter, it is what has been typed into the line
editor, no key event was left for another reader, and no C0 control but Tab got
into the line. -/
theorem typed_line_read {δ : Type} {host : Host δ} {b c : PipeBridge δ} {m : MsgRef} {l l' : LineEditor} {e : LineEnd}
    {bytes : List UInt8} (hb : b.Editing m l) (h : PipeBridge.LineRun host (PipeBridge.keepsToLine host) b bytes c)
    (hend : lineTyped host b.inputMode b.processControlZ b.scanner l bytes = (some e, l')) (he : e.isEnter = true) :
    c.pending = .none ∧
      (c.msgs m).complete = some { identifier := (b.msgs m).identifier, data := .line l'.text } ∧
      c.inp = b.inp ∧ (l.Clean → ∀ ch ∈ l'.text, isLineChar ch = true) := by
  have htyped := h.typedLine hb
  rw [hend] at htyped
  have hread := htyped.ended e rfl he
  refine ⟨hread.pending, hread.complete, hread.inp, fun hl => ?_⟩
  have hclean := LineEditor.Clean.lineTyped host b.inputMode b.processControlZ bytes (σ := b.scanner) hl
  rw [hend] at hclean
  exact hclean.text

/-- `a`, Left, `b`, CR. -/
theorem typed_line_read_left :
    let b : PipeBridge Unit :=
      { utf8Decoder := (), pending := .consoleRead 0, queuedVtInput := [0x61, 0x1B, 0x5B, 0x44, 0x62, 0x0D] }
    let c := b.readAvailableVtInput.2.processNewVtInput IoLoop.asciiHost 0
    (c.msgs 0).complete = some { identifier := 0, data := .line [0x62, 0x61] } ∧ c.inp = [] := by
  intro b c
  have hst : b.readAvailableVtInput.1 = .bytes := by decide
  obtain ⟨c', hread⟩ : ∃ c', b.readAvailableVtInput = (.bytes, c') := ⟨_, Prod.ext hst rfl⟩
  have hc : c' = b.readAvailableVtInput.2 := (congrArg Prod.snd hread).symm
  have hbytes : c'.readbuf.drop b.readbuf.length = [0x61, 0x1B, 0x5B, 0x44, 0x62, 0x0D] := by
    rw [hc]
    decide
  have hok : PipeBridge.keepsToLine IoLoop.asciiHost
      (PipeBridge.startRound { c' with lineFound := false } b.readbuf.length (c'.readbuf.drop b.readbuf.length) false)
      b.readbuf.length (c'.readbuf.drop b.readbuf.length) = true := by
    rw [hc]
    decide
  have hrun : PipeBridge.LineRun IoLoop.asciiHost _ b _ (c'.processNewVtInput IoLoop.asciiHost b.readbuf.length) :=
    .read .start (by decide) hread hok
  rw [hbytes] at hrun
  have hend : lineTyped IoLoop.asciiHost b.inputMode b.processControlZ b.scanner {}
      ([] ++ [0x61, 0x1B, 0x5B, 0x44, 0x62, 0x0D]) = (some .carriageReturn, ⟨⟨[0x62], [0x61]⟩, {}⟩) := by
    decide
  have hline := typed_line_read (m := 0) (l := {}) ⟨rfl, rfl, rfl, ⟨rfl, rfl⟩, rfl⟩ hrun hend rfl
  rw [hc] at hline
  exact ⟨hline.2.1, hline.2.2.1⟩

/-- The start of a bracketed paste gets into the line, and a Tab goes to the
events. -/
theorem stray_input_read :
    let b (bytes : List UInt8) : PipeBridge Unit :=
      { utf8Decoder := (), pending := .consoleRead 0, queuedVtInput := bytes }
    let c (bytes : List UInt8) := ((b bytes).accumulateFromPipe IoLoop.asciiHost).2
    let line (bytes : List UInt8) := lineTyped IoLoop.asciiHost 0 false (b bytes).scanner {} bytes
    let paste : List UInt8 := [0x1B, 0x5B, 0x32, 0x30, 0x30, 0x7E, 0x61, 0x0D]
    let tab : List UInt8 := [0x61, 0x09, 0x0D]
    (((c paste).msgs 0).complete = some { identifier := 0, data := .line [0x1B, 0x5B, 0x32, 0x30, 0x30, 0x7E, 0x61] } ∧
      ((line paste).1 = some .carriageReturn ∧ (line paste).2.text = [0x61]) ∧ (c paste).inp.length = 12) ∧
    ((c tab).msgs 0).complete = some { identifier := 0, data := .line [0x61] } ∧
      ((line tab).1 = some .carriageReturn ∧ (line tab).2.text = [0x61, 0x09]) ∧ (c tab).inp.length = 2 := by
  decide

end Corehost
