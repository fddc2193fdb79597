import Corehost.Vt.Produced
import Corehost.Vt.Send

/-!
# What comes back of a message that is sent

The characters that `vt_msg_send` writes for a message are parsed again by a
new parser.

* `received`: the messages of the new parser, with the payloads that are
  defined for their identifiers;
* `echo`: what is to come back: the message itself, but for the messages that
  `vt_msg_send` replaces;
* `received_vtMsgSend`: what comes back;
* `sent_message_read_back`: the same through an encoding in bytes.
-/

namespace Corehost

open Lib Lib.Transducer

/-- A Unicode scalar value. -/
def IsScalar (ch : Char32) : Prop := ch < 0xD800 ∨ 0xE000 ≤ ch ∧ ch < 0x110000

instance (ch : Char32) : Decidable (IsScalar ch) := inferInstanceAs (Decidable (_ ∨ _ ∧ _))

namespace VtMessageId

/-- The messages that `vt_msg_send` sends, without a payload. -/
def sentBare : List VtMessageId :=
  [.carriageReturn, .lineFeed, .reverseIndex, .saveCursor, .restoreCursor, .ansiSaveCursor, .ansiRestoreCursor,
    .cursorEnableBlinking, .cursorDisableBlinking, .cursorShow, .cursorHide, .cursorKeysAppMode, .cursorKeysNormalMode,
    .horizontalTabSet, .tabClearCurrent, .tabClearAll, .keypadAppMode, .keypadNumericMode, .designateCharsetLineDrawing,
    .designateCharsetAscii, .useAlternateBuffer, .useMainBuffer, .setColumns132, .setColumns80, .softReset,
    .reportCursorPosition, .deviceAttributes]

/-- The messages with a count, and the final characters of their sequences. -/
def sentCounts : List (VtMessageId × Char) :=
  [(.cursorUp, 'A'), (.cursorDown, 'B'), (.cursorForward, 'C'), (.cursorBackward, 'D'), (.cursorNextLine, 'E'),
    (.cursorPrevLine, 'F'), (.cursorForwardTab, 'I'), (.cursorBackwardTab, 'Z'), (.scrollUp, 'S'), (.scrollDown, 'T'),
    (.insertCharacters, '@'), (.deleteCharacters, 'P'), (.eraseCharacters, 'X'), (.insertLines, 'L'), (.deleteLines, 'M')]

/-- The messages that `vt_msg_send` sends with some other payload. -/
def sentOthers : List VtMessageId :=
  [.text, .setWindowTitle, .cursorVertAbsolute, .cursorHorizAbsolute, .cursorPosition, .setCursorShape, .eraseInDisplay,
    .eraseInLine, .setScrollingRegion, .sgr, .setPaletteColor]

/-- The messages that `vt_msg_send` sends. -/
def Sent (id : VtMessageId) : Prop := id ∈ sentBare ∨ id ∈ sentCounts.map Prod.fst ∨ id ∈ sentOthers

instance (id : VtMessageId) : Decidable id.Sent := inferInstanceAs (Decidable (_ ∨ _ ∨ _))

/-- Whether a payload is defined for the message. -/
def carries (id : VtMessageId) : Bool := decide (id ∉ sentBare)

end VtMessageId

/-- A message as its receiver sees it. -/
def Emitted.seen (m : Emitted) : VtMessageId × VtPayload := (m.id, if m.id.carries then m.message.payload else .none)

/-- What a new parser makes of the characters. -/
def received (s : List Char32) : List (VtMessageId × VtPayload) := (VtParser.feed {} s).1.map Emitted.seen

/-- What is to come back of a message. LF is sent as CR LF, the ANSI forms of
saving the cursor as the DEC ones, a soft reset with the request for
win32-input-mode behind it, an empty title not at all, and an SGR message as a
complete attribute, behind a reset. -/
def echo (id : VtMessageId) (payload : VtPayload) : List (VtMessageId × VtPayload) :=
  match id with
  | .lineFeed => [(.carriageReturn, .none), (.lineFeed, .none)]
  | .ansiSaveCursor => [(.saveCursor, .none)]
  | .ansiRestoreCursor => [(.restoreCursor, .none)]
  | .softReset => [(.softReset, .none), (.unknownSequence, .text (chars ['\x1b', '[', '?', '9', '0', '0', '1', 'h']))]
  | .setWindowTitle => if payload.titleValue.isEmpty then [] else [(.setWindowTitle, payload)]
  | .sgr => [(.sgr, .sgr (payload.sgrValue.set .reset))]
  | id => [(id, if id.carries then payload else .none)]

/-- An SGR message that is sent whole: a reset alone, or no reset, no more than
`MAX_PARAMS` parameters, and the weight not both set and cleared. -/
def VtSgrPayload.SentWhole (m : VtSgrPayload) : Prop :=
  m = ({} : VtSgrPayload).set .reset ∨
    m.has .reset = false ∧ m.sendParams.length ≤ MAX_PARAMS ∧
      ¬ ((m.has .bold ∨ m.has .faint) ∧ (m.clears .bold ∨ m.clears .faint))

/-- No number of the payload is negative, and an SGR payload is sent whole. -/
def VtPayload.Clean : VtPayload → Prop
  | .count n => 0 ≤ n
  | .row n => 0 ≤ n
  | .col n => 0 ≤ n
  | .position r c => 0 ≤ r ∧ 0 ≤ c
  | .eraseMode n => 0 ≤ n
  | .scrollRegion t b => 0 ≤ t ∧ 0 ≤ b
  | .cursorShape n => 0 ≤ n
  | .sgr m => m.SentWhole
  | _ => True

namespace RoundTrip

/-! ## Reading the characters one by one -/

theorem feed_eq_run {s : List Char32} (h : ∀ m ∈ (run VtParser.charStep {} s).1, m.id ≠ .continueText) :
    (VtParser.feed {} s).1 = (run VtParser.charStep {} s).1 := by
  have hout := VtParser.feed_agrees.output {} s VtParser.steady_new
  have hne := VtParser.feedLoop_text_ne s.length VtParser.steady_new (le_refl s.length)
  rw [← hout] at h ⊢
  have hall : ∀ ms : List Emitted, (∀ m ∈ ms, m.text? ≠ some []) →
      (∀ m ∈ ms.flatMap Emitted.split, m.id ≠ .continueText) → ms = ms.flatMap Emitted.split := by
    intro ms
    induction ms with
    | nil => exact fun _ _ => rfl
    | cons m ms ih =>
      intro h1 h2
      obtain ⟨hm, hms⟩ := List.forall_mem_cons.mp h1
      rw [List.flatMap_cons] at h2 ⊢
      have hid : m.id ≠ .continueText := by
        cases ht : m.text? with
        | none => exact h2 m (by simp [Emitted.split, ht])
        | some t =>
          cases t with
          | nil => exact absurd ht hm
          | cons ch t => exact h2 (m.withText [ch]) (by simp [Emitted.split_of_text ht])
      rw [Emitted.split_of_ne hid, ← ih hms fun x hx => h2 x (List.mem_append_right _ hx)]
      rfl
  exact hall _ hne h

/-- A CSI sequence whose message is known. -/
theorem received_csi {body : List Char32} (hb : ∀ ch ∈ body, isCsiBody ch = true) {final : Char32}
    (hf : classifyCsiChar final = .final) {id : VtMessageId} {msg : VtMessage}
    (hd : dispatchCsi (body.foldl CsiParams.read {}).addParam final {} = (id, msg)) (hid : id ≠ .continue_)
    (hid' : id ≠ .continueText) :
    received (0x1B :: 0x5B :: (body ++ [final])) = [(id, if id.carries then msg.payload else .none)] := by
  have hrun := VtParser.run_csi VtParser.steady_new rfl hb hf
  rw [hd] at hrun
  have hfeed : (VtParser.feed {} (0x1B :: 0x5B :: (body ++ [final]))).1 =
      [⟨id, msg, 0x1B :: 0x5B :: (body ++ [final])⟩] := by
    rw [feed_eq_run] <;> rw [hrun]
    · simp [VtParser.csiMessage, hid]
    · intro m hm
      rw [List.mem_singleton.mp hm]
      simpa [VtParser.csiMessage, hid] using hid'
  rw [received, hfeed]
  rfl

/-- The characters of numbers, none of them negative. -/
theorem vtAppendInt_isDigit {vs : List Int} (hv : ∀ v ∈ vs, 0 ≤ v) :
    ∀ d ∈ vs.map vtAppendInt, ∀ ch ∈ d, isDigit ch = true := by
  intro d hd ch hc
  obtain ⟨v, hm, rfl⟩ := List.mem_map.mp hd
  rw [vtAppendInt, if_neg (not_lt.mpr (hv v hm))] at hc
  exact decimal_isDigit _ ch hc

theorem shortOf_vtAppendInt {v : Int} (h0 : 0 ≤ v) (hs : IsShort v) : shortOf (vtAppendInt v) = v := by
  have := hs.2
  rw [vtAppendInt, if_neg (not_lt.mpr h0), shortOf_decimal (by omega)]
  omega

/-- The collected numbers. -/
theorem read_numbers {vs : List Int} (hne : vs ≠ []) (hv : ∀ v ∈ vs, 0 ≤ v) (hs : ∀ v ∈ vs, IsShort v) :
    ((joinParams (vs.map vtAppendInt)).foldl CsiParams.read {}).addParam = CsiParams.ofValues vs := by
  have hvalues : (vs.map vtAppendInt).map shortOf = vs := by
    rw [List.map_map]
    exact (List.map_congr_left fun v hm => shortOf_vtAppendInt (hv v hm) (hs v hm)).trans (List.map_id vs)
  rw [CsiParams.read_params (by simpa using hne) rfl (vtAppendInt_isDigit hv), hvalues]
  rfl

/-- A CSI sequence with nothing but numbers. -/
theorem received_numbers {vs : List Int} (hne : vs ≠ []) (hv : ∀ v ∈ vs, 0 ≤ v) (hs : ∀ v ∈ vs, IsShort v)
    {final : Char32} (hf : classifyCsiChar final = .final) {id : VtMessageId} {msg : VtMessage}
    (hd : dispatchCsi (CsiParams.ofValues vs) final {} = (id, msg)) (hid : id ≠ .continue_)
    (hid' : id ≠ .continueText) :
    received (0x1B :: 0x5B :: (joinParams (vs.map vtAppendInt) ++ [final])) =
      [(id, if id.carries then msg.payload else .none)] := by
  refine received_csi (CsiParams.isCsiBody_joinParams (vtAppendInt_isDigit hv)) hf ?_ hid hid'
  rw [read_numbers hne hv hs, hd]

/-! ## Messages without a payload -/

theorem vtMsgSend_bare {id : VtMessageId} (h : id ∈ VtMessageId.sentBare) (payload : VtPayload) :
    vtMsgSend id payload = vtMsgSend id .none ∧ echo id payload = echo id .none := by
  revert h
  cases id <;> intro h <;> first | exact ⟨rfl, rfl⟩ | exact absurd h (by decide)

theorem received_bare {id : VtMessageId} (h : id ∈ VtMessageId.sentBare) (payload : VtPayload) :
    received (vtMsgSend id payload) = echo id payload := by
  have hall : ∀ id ∈ VtMessageId.sentBare, received (vtMsgSend id .none) = echo id .none := by decide
  rw [(vtMsgSend_bare h payload).1, (vtMsgSend_bare h payload).2]
  exact hall id h

/-! ## Messages with a number -/

/-- One number behind `ESC [`. -/
theorem received_number {n : Int} (h0 : 0 ≤ n) (hs : IsShort n) {final : Char} (hf : classifyCsiChar final.toNat = .final)
    {id : VtMessageId} {msg : VtMessage} (hd : dispatchCsi (CsiParams.ofValues [n]) final.toNat {} = (id, msg))
    (hid : id ≠ .continue_) (hid' : id ≠ .continueText) :
    received (sendNumber n final) = [(id, if id.carries then msg.payload else .none)] :=
  @received_numbers [n] (by simp) (by simpa using h0) (by simpa using hs) _ hf _ _ hd hid hid'

theorem dispatchCsi_count {p : VtMessageId × Char} (h : p ∈ VtMessageId.sentCounts) {n : Int} (h0 : n ≠ 0)
    (hs : IsShort n) : dispatchCsi (CsiParams.ofValues [n]) p.2.toNat {} = (p.1, { payload := .count n }) := by
  have hclamp : CsiParams.clamp n = n := CsiParams.InRange.clamp_eq hs
  have hget : (CsiParams.ofValues [n]).getParam 0 1 = n := rfl
  simp only [VtMessageId.sentCounts, List.mem_cons, List.not_mem_nil, or_false] at h
  unfold dispatchCsi
  rw [if_neg (by simp [CsiParams.ofValues_overflow, MAX_PARAMS]), CsiParams.ofValues_paramIndex]
  simp only [List.length_singleton, MAX_PARAMS, hget]
  rcases h with rfl | rfl | rfl | rfl | rfl | rfl | rfl | rfl | rfl | rfl | rfl | rfl | rfl | rfl | rfl <;>
    simp [h0, hclamp, CsiParams.ofValues, CsiParams.push, CsiParams.addParam, MAX_PARAMS]

/-- The count 1 may be left out. -/
theorem vtMsgSend_count {p : VtMessageId × Char} (h : p ∈ VtMessageId.sentCounts) {n : Int} (hn : 1 ≤ n) :
    vtMsgSend p.1 (.count n) = sendNumber n p.2 ∨ n = 1 ∧ vtMsgSend p.1 (.count n) = chars ['\x1b', '[', p.2] := by
  have helided (final : Char) : sendElided n final = sendNumber n final ∨
      n = 1 ∧ sendElided n final = chars ['\x1b', '[', final] := by
    unfold sendElided
    split
    · exact .inl rfl
    · exact .inr ⟨by omega, rfl⟩
  simp only [VtMessageId.sentCounts, List.mem_cons, List.not_mem_nil, or_false] at h
  rcases h with rfl | rfl | rfl | rfl | rfl | rfl | rfl | rfl | rfl | rfl | rfl | rfl | rfl | rfl | rfl
  all_goals first
    | exact .inl rfl
    | exact helided _

theorem echo_count {p : VtMessageId × Char} (h : p ∈ VtMessageId.sentCounts) (n : Int) :
    echo p.1 (.count n) = [(p.1, .count n)] := by
  simp only [VtMessageId.sentCounts, List.mem_cons, List.not_mem_nil, or_false] at h
  rcases h with rfl | rfl | rfl | rfl | rfl | rfl | rfl | rfl | rfl | rfl | rfl | rfl | rfl | rfl | rfl <;> rfl

theorem received_count {p : VtMessageId × Char} (h : p ∈ VtMessageId.sentCounts) {n : Int} (h0 : n ≠ 0) (hs : IsShort n)
    (hn : 0 ≤ n) : received (vtMsgSend p.1 (.count n)) = echo p.1 (.count n) := by
  have hid : ∀ p ∈ VtMessageId.sentCounts, p.1 ≠ .continue_ ∧ p.1 ≠ .continueText ∧ p.1.carries = true ∧
      classifyCsiChar p.2.toNat = .final := by decide
  have hone : ∀ p ∈ VtMessageId.sentCounts, received (chars ['\x1b', '[', p.2]) = [(p.1, .count 1)] := by decide
  obtain ⟨h1, h2, h3, h4⟩ := hid p h
  rw [echo_count h]
  rcases vtMsgSend_count h (n := n) (by omega) with hsend | ⟨rfl, hsend⟩
  · rw [hsend, received_number hn hs h4 (dispatchCsi_count h h0 hs) h1 h2, if_pos h3]
  · rw [hsend, hone p h]

/-! ## Rows, columns and other numbers -/

theorem dispatchCsi_row {n : Int} (h0 : n ≠ 0) (hs : IsShort n) :
    dispatchCsi (CsiParams.ofValues [n]) 'd'.toNat {} = (.cursorVertAbsolute, { payload := .row n }) ∧
    dispatchCsi (CsiParams.ofValues [n]) 'G'.toNat {} = (.cursorHorizAbsolute, { payload := .col n }) := by
  have hclamp : CsiParams.clamp n = n := CsiParams.InRange.clamp_eq hs
  constructor <;> simp [dispatchCsi, CsiParams.getPositiveParam, CsiParams.getParam, CsiParams.ofValues, CsiParams.push,
    CsiParams.addParam, MAX_PARAMS, h0, hclamp]

theorem dispatchCsi_erase {n : Int} (hs : IsShort n) :
    dispatchCsi (CsiParams.ofValues [n]) 'J'.toNat {} = (.eraseInDisplay, { payload := .eraseMode n }) ∧
    dispatchCsi (CsiParams.ofValues [n]) 'K'.toNat {} = (.eraseInLine, { payload := .eraseMode n }) := by
  have hclamp : CsiParams.clamp n = n := CsiParams.InRange.clamp_eq hs
  constructor <;> simp [dispatchCsi, CsiParams.getParam, CsiParams.ofValues, CsiParams.push, CsiParams.addParam, MAX_PARAMS,
    hclamp]

/-- Two numbers. -/
theorem dispatchCsi_pair {r c : Int} (hr : r ≠ 0) (hc : c ≠ 0) (hrs : IsShort r) (hcs : IsShort c) :
    dispatchCsi (CsiParams.ofValues [r, c]) 'H'.toNat {} =
      (.cursorPosition, { payload := .position r c, keyModifier := c }) := by
  have h1 : CsiParams.clamp r = r := CsiParams.InRange.clamp_eq hrs
  have h2 : CsiParams.clamp c = c := CsiParams.InRange.clamp_eq hcs
  simp [dispatchCsi, CsiParams.getPositiveParam, CsiParams.getParam, CsiParams.ofValues, CsiParams.push,
    CsiParams.addParam, MAX_PARAMS, hr, hc, h1, h2]

theorem dispatchCsi_region {t b : Int} (hts : IsShort t) (hbs : IsShort b) :
    dispatchCsi (CsiParams.ofValues [t, b]) 'r'.toNat {} =
      (.setScrollingRegion, { payload := .scrollRegion t b, keyModifier := b }) := by
  have h1 : CsiParams.clamp t = t := CsiParams.InRange.clamp_eq hts
  have h2 : CsiParams.clamp b = b := CsiParams.InRange.clamp_eq hbs
  simp [dispatchCsi, CsiParams.getParam, CsiParams.ofValues, CsiParams.push, CsiParams.addParam, MAX_PARAMS, h1, h2]

theorem received_pair {r c : Int} (hr : 0 ≤ r) (hc : 0 ≤ c) (hrs : IsShort r) (hcs : IsShort c) {final : Char}
    (hf : classifyCsiChar final.toNat = .final) {id : VtMessageId} {msg : VtMessage}
    (hd : dispatchCsi (CsiParams.ofValues [r, c]) final.toNat {} = (id, msg)) (hid : id ≠ .continue_)
    (hid' : id ≠ .continueText) :
    received (chars ['\x1b', '['] ++ vtAppendInt r ++ chars [';'] ++ vtAppendInt c ++ chars [final]) =
      [(id, if id.carries then msg.payload else .none)] := by
  have h := @received_numbers [r, c] (by simp) (by simp [hr, hc]) (by simp [hrs, hcs]) _ hf _ _ hd hid hid'
  simpa [chars, joinParams] using h

theorem received_position {r c : Int} (hr : r ≠ 0 ∧ IsShort r) (hc : c ≠ 0 ∧ IsShort c) (h0 : 0 ≤ r ∧ 0 ≤ c) :
    received (vtMsgSend .cursorPosition (.position r c)) = echo .cursorPosition (.position r c) := by
  have hi {v : Int} (h : v ≠ 0 ∧ IsShort v) (h0 : 0 ≤ v) : i16 (v - 1) + 1 = v := by
    have := h.2.2
    rw [i16_of_range] <;> omega
  have hsend : vtMsgSend .cursorPosition (.position r c) =
      chars ['\x1b', '['] ++ vtAppendInt r ++ chars [';'] ++ vtAppendInt c ++ chars ['H'] := by
    rw [vtMsgSend, VtPayload.rowValue, VtPayload.colValue, vtWriteCup, hi hr h0.1, hi hc h0.2]
  rw [hsend, received_pair h0.1 h0.2 hr.2 hc.2 rfl (dispatchCsi_pair hr.1 hc.1 hr.2 hc.2) (by decide) (by decide)]
  rfl

theorem received_shape {n : Int} (h0 : 0 ≤ n) (hs : IsShort n) :
    received (vtMsgSend .setCursorShape (.cursorShape n)) = echo .setCursorShape (.cursorShape n) := by
  have hdig := @vtAppendInt_isDigit [n] (by simpa using h0)
  have hclamp : CsiParams.clamp n = n := CsiParams.InRange.clamp_eq hs
  have hread : ((joinParams ([n].map vtAppendInt) ++ [0x20]).foldl CsiParams.read {}).addParam =
      { CsiParams.ofValues [n] with intermediate := 0x20 } := by
    rw [← read_numbers (by simp) (by simpa using h0) (by simpa using hs), List.foldl_append, List.foldl_cons, List.foldl_nil]
    generalize (joinParams ([n].map vtAppendInt)).foldl CsiParams.read {} = c
    simp only [CsiParams.read, show classifyCsiChar 0x20 = .intermediate from rfl, CsiParams.addParam]
    split <;> rfl
  have hd : dispatchCsi { CsiParams.ofValues [n] with intermediate := 0x20 } 0x71 {} =
      (.setCursorShape, { payload := .cursorShape n }) := by
    simp [dispatchCsi, CsiParams.getParam, CsiParams.ofValues, CsiParams.push, CsiParams.addParam, MAX_PARAMS, hclamp]
  have h := @received_csi (joinParams ([n].map vtAppendInt) ++ [0x20])
    (fun ch hc => (List.mem_append.mp hc).elim (CsiParams.isCsiBody_joinParams hdig ch)
      fun hc => List.mem_singleton.mp hc ▸ rfl) 0x71 rfl _ _ (by rw [hread, hd]) (by decide) (by decide)
  simpa [vtMsgSend, VtPayload.cursorShapeValue, chars, joinParams, echo, VtMessageId.carries, VtMessageId.sentBare] using h

/-! ## Control characters -/

theorem received_text {ch : Char32} (h : classifyGroundChar ch = .otherControl) :
    received (vtMsgSend .text (.text [ch])) = echo .text (.text [ch]) := by
  have hlt : ch < 0x20 := by
    by_contra hge
    have hgt : ch > 0x1F := Nat.lt_of_lt_of_le (by decide) (Nat.not_lt.mp hge)
    by_cases hdel : ch = 0x7F
    · subst hdel
      simp [classifyGroundChar] at h
    · simp [classifyGroundChar, hgt, hdel] at h
  have hall : ∀ ch < 0x20, classifyGroundChar ch = .otherControl →
      received (vtMsgSend .text (.text [ch])) = echo .text (.text [ch]) := by decide
  exact hall ch hlt h

/-! ## OSC sequences -/

open VtParser in
/-- After ESC, a character that leads back to a string. -/
theorem parseEsc_string (p : VtParser) {pl : OscPlace} {ch : Char32} (hm : p.mode = .esc)
    (hn : OscPlace.afterEscape ch = some pl) :
    (p.parseEsc ch).1 = .continue_ ∧ (p.parseEsc ch).2.mode = pl.mode ∧ (p.parseEsc ch).2.raw = p.raw ∧
      (p.parseEsc ch).2.seqStart = p.seqStart ∧ (p.parseEsc ch).2.msg = p.msg := by
  unfold OscPlace.afterEscape at hn
  split at hn
  · rename_i hc
    subst hc
    obtain rfl := Option.some.inj hn
    simp [parseEsc, isC0OrDel, OscPlace.mode]
  · split at hn
    · rename_i hc
      subst hc
      obtain rfl := Option.some.inj hn
      simp [parseEsc, isC0OrDel, OscPlace.mode, hm]
    · simp at hn

open VtParser in
/-- A character that goes on with a string. -/
theorem parseSequenceChar_string {p : VtParser} {pl pl' : OscPlace} (hm : p.mode = pl.mode) {ch : Char32}
    (hn : pl.next ch = some pl') :
    (p.parseSequenceChar ch).1 = .continue_ ∧ (p.parseSequenceChar ch).2.mode = pl'.mode ∧
      (p.parseSequenceChar ch).2.raw = p.raw ++ [ch] ∧ (p.parseSequenceChar ch).2.seqStart = p.seqStart ∧
      (p.parseSequenceChar ch).2.msg = p.msg := by
  rw [parseSequenceChar]
  cases pl with
  | string =>
    simp only [OscPlace.mode] at hm
    simp only [hm]
    rw [OscPlace.next] at hn
    split at hn
    · rename_i hc
      subst hc
      obtain rfl := Option.some.inj hn
      simp [parseOsc, isC0OrDel, OscPlace.mode]
    · split at hn
      · simp at hn
      · rename_i hc
        obtain rfl := Option.some.inj hn
        rw [parseOsc, if_neg hc]
        repeat' split
        all_goals exact ⟨rfl, rfl, rfl, rfl, rfl⟩
  | stringEscape =>
    simp only [OscPlace.mode] at hm
    simp only [hm]
    rw [OscPlace.next] at hn
    split at hn
    · simp at hn
    · rename_i hc
      rw [parseOscSt, if_neg hc]
      exact parseEsc_string _ rfl hn
  | escape =>
    simp only [OscPlace.mode] at hm
    simp only [hm]
    exact parseEsc_string _ rfl hn

open VtParser in
/-- A string is read without a message. -/
theorem run_string : ∀ {s : List Char32} {p : VtParser} {pl pl' : OscPlace}, p.mode = pl.mode → oscScan pl s = some pl' →
    (run charStep p s).1 = [] ∧ (run charStep p s).2.mode = pl'.mode ∧ (run charStep p s).2.raw = p.raw ++ s ∧
      (run charStep p s).2.seqStart = p.seqStart ∧ (run charStep p s).2.msg = p.msg
  | [], p, pl, pl', hm, hs => by
    obtain rfl := Option.some.inj hs
    exact ⟨rfl, hm, (List.append_nil _).symm, rfl, rfl⟩
  | ch :: s, p, pl, pl', hm, hs => by
    rw [oscScan] at hs
    obtain ⟨pl₁, hn, hs⟩ := Option.bind_eq_some_iff.mp hs
    have hne : p.mode ≠ .ground := by
      rw [hm]
      cases pl <;> decide
    obtain ⟨h1, h2, h3, h4, h5⟩ := parseSequenceChar_string hm hn
    have hstep : charStep p ch = ([], (p.parseSequenceChar ch).2) := by
      rw [charStep, advance, if_neg hne]
      exact if_pos h1
    obtain ⟨r1, r2, r3, r4, r5⟩ := run_string h2 hs
    rw [run_cons, hstep]
    refine ⟨r1, r2, ?_, r4.trans h4, r5.trans h5⟩
    rw [r3, h3, List.append_assoc, List.singleton_append]

open VtParser in
/-- An OSC sequence that ends with BEL. -/
theorem received_osc {s : List Char32} (hs : IsOscString s) {id : VtMessageId} {payload : VtPayload}
    (hd : dispatchOsc (0x1B :: 0x5D :: (s ++ [0x07])) .none = (id, payload)) (hid : id ≠ .continue_)
    (hid' : id ≠ .continueText) :
    received (0x1B :: 0x5D :: (s ++ [0x07])) = [(id, if id.carries then payload else .none)] := by
  have hintro : run charStep {} [0x1B, 0x5D] = ([], { raw := [0x1B, 0x5D], mode := .osc }) := by decide
  obtain ⟨h1, h2, h3, h4, h5⟩ := @run_string s { raw := [0x1B, 0x5D], mode := .osc } .string _ rfl hs
  have hsplit : 0x1B :: 0x5D :: (s ++ [0x07]) = [0x1B, 0x5D] ++ (s ++ [0x07]) := rfl
  have hrun : ∃ raw msg, (run charStep {} (0x1B :: 0x5D :: (s ++ [0x07]))).1 = [⟨id, msg, raw⟩] ∧ msg.payload = payload := by
    rw [hsplit, run_append, hintro, List.nil_append, run_append]
    generalize run charStep { raw := [0x1B, 0x5D], mode := .osc } s = r at h1 h2 h3 h4 h5
    obtain ⟨out, gcc, msg, raw, seqStart, mode, csi, osc⟩ := r
    simp only at h1 h2 h3 h4 h5
    subst h1 h2 h3 h4 h5
    refine ⟨0x1B :: 0x5D :: (s ++ [0x07]), { payload := payload }, ?_, rfl⟩
    simp [run_cons, charStep, advance, parseSequenceChar, parseOsc, parseOscEnd, OscPlace.mode, isC0OrDel, hd, finishSeq, hid,
      rawSequence]
  obtain ⟨raw, msg, hrun, rfl⟩ := hrun
  have hfeed : (VtParser.feed {} (0x1B :: 0x5D :: (s ++ [0x07]))).1 = [⟨id, msg, raw⟩] := by
    rw [feed_eq_run] <;> rw [hrun]
    intro m hm
    rw [List.mem_singleton.mp hm]
    exact hid'
  rw [received, hfeed]
  rfl

theorem received_title {t : List Char32} (ht : IsOscString t) :
    received (vtMsgSend .setWindowTitle (.title t)) = echo .setWindowTitle (.title t) := by
  rw [vtMsgSend, VtPayload.titleValue, vtWriteWindowTitle, echo]
  by_cases hne : t.isEmpty
  · rw [if_pos hne, if_pos (show (VtPayload.title t).titleValue.isEmpty from hne)]
    rfl
  · rw [if_neg hne, if_neg (show ¬ (VtPayload.title t).titleValue.isEmpty from hne)]
    have hs : IsOscString (0x30 :: 0x3B :: t) := ht
    have hd : dispatchOsc (0x1B :: 0x5D :: (0x30 :: 0x3B :: t ++ [0x07])) .none = (.setWindowTitle, .title t) := by
      have hterm : untilTerminator (t ++ [0x07]) = some t := untilTerminator_append (.inl rfl) t .string ht
      simp [dispatchOsc, isDigit, hterm, i16]
    exact received_osc hs hd (by decide) (by decide)

/-! ## Palette colours -/

theorem isOscString_plain : ∀ {s : List Char32}, (∀ ch ∈ s, isC0OrDel ch = false) → IsOscString s
  | [], _ => rfl
  | ch :: s, h => by
    have hch := h ch List.mem_cons_self
    have hesc : ch ≠ 0x1B := by
      rintro rfl
      simp [isC0OrDel] at hch
    rw [IsOscString, oscScan, OscPlace.next, if_neg hesc, hch]
    exact isOscString_plain fun x hx => h x (List.mem_cons_of_mem _ hx)

/-- Digits are no control characters. -/
theorem isC0OrDel_of_isHexDigit {ch : Char32} (h : isHexDigit ch = true) : isC0OrDel ch = false := by
  simp only [isHexDigit, isDigit, Bool.or_eq_true, Bool.and_eq_true, decide_eq_true_eq] at h
  have h : ((0x30 : Nat) ≤ ch ∧ ch ≤ (0x39 : Nat) ∨ (0x41 : Nat) ≤ ch ∧ ch ≤ (0x46 : Nat)) ∨
    (0x61 : Nat) ≤ ch ∧ ch ≤ (0x66 : Nat) := h
  rcases h with (⟨h1, h2⟩ | ⟨h1, h2⟩) | ⟨h1, h2⟩ <;> interval_cases ch <;> rfl

set_option maxRecDepth 4096 in
theorem vtAppendHexByte_digits {v : Nat} (h : v < 256) : (∀ ch ∈ vtAppendHexByte v, isHexDigit ch = true) ∧
    (vtAppendHexByte v).foldl (fun v ch => v * 16 + hexValue ch) 0 = v := by
  have hall : ∀ v < 256, (∀ ch ∈ vtAppendHexByte v, isHexDigit ch = true) ∧
      (vtAppendHexByte v).foldl (fun v ch => v * 16 + hexValue ch) 0 = v := by decide
  exact hall v h

/-- Nothing is skipped in front of a number. -/
theorem dropWhile_append {ds rest : List Char32} {c : Char32} (hne : ds ≠ []) (h : ∀ ch ∈ ds, isHexDigit ch = true)
    (hc : isHexDigit c = false) : (ds ++ rest).dropWhile (· == c) = ds ++ rest := by
  obtain ⟨d, ds, rfl⟩ := List.exists_cons_of_ne_nil hne
  have hd : d ≠ c := by
    rintro rfl
    rw [h d List.mem_cons_self] at hc
    simp at hc
  rw [List.cons_append, List.dropWhile_cons_of_neg (by simpa using hd)]

theorem dropWhile_hex {v : Nat} (h : v < 256) {rest : List Char32} :
    (vtAppendHexByte v ++ rest).dropWhile (· == 0x2F) = vtAppendHexByte v ++ rest :=
  dropWhile_append (by simp [vtAppendHexByte]) (vtAppendHexByte_digits h).1 rfl

theorem parseOscHex8_append {v : Nat} (h : v < 256) {rest : List Char32} :
    parseOscHex8 (vtAppendHexByte v ++ rest) = (v, rest.dropWhile (· == 0x2F)) := by
  obtain ⟨hdig, hval⟩ := vtAppendHexByte_digits h
  have hlen : (vtAppendHexByte v).length = 2 := rfl
  have htake : ((vtAppendHexByte v ++ rest).take 2).takeWhile isHexDigit = vtAppendHexByte v := by
    rw [List.take_left' hlen, List.takeWhile_eq_self_iff.mpr hdig]
  rw [parseOscHex8, htake, if_neg (by simp [vtAppendHexByte]), hval, List.drop_left]

theorem decimal_length {n : Nat} (h : n ≤ 32767) : (decimal n).length ≤ 5 := by
  unfold decimal
  split
  · decide
  · rename_i h0
    rw [List.length_map, List.length_reverse, Nat.digits_length_le_iff (by decide)]
    omega

theorem decimal_ne_nil (n : Nat) : decimal n ≠ [] := by
  unfold decimal
  split
  · simp
  · rename_i h0
    simpa [Nat.digits_eq_nil_iff_eq_zero] using h0

theorem decimal_value (n : Nat) : (decimal n).foldl (fun (v : Nat) ch => v * 10 + (ch - 0x30)) 0 = n := by
  unfold decimal
  split
  · rename_i h0
    exact h0.symm
  · rw [List.foldl_map]
    exact (List.foldl_ext _ _ _ fun v d _ => by rw [Nat.add_sub_cancel]).trans (natOf_reverse_digits n)

theorem parseOscDecimal8_append {n : Nat} (h : n ≤ 32767) {rest : List Char32} :
    parseOscDecimal8 (decimal n ++ 0x3B :: rest) = ((n : Int), 0x3B :: rest) := by
  have hdig := decimal_isDigit n
  have hlen := decimal_length h
  have hspace : (decimal n ++ 0x3B :: rest).dropWhile (· == 0x20) = decimal n ++ 0x3B :: rest :=
    dropWhile_append (decimal_ne_nil n) (fun ch hc => by simp [isHexDigit, hdig ch hc]) rfl
  have htake : ((decimal n ++ 0x3B :: rest).take 5).takeWhile isDigit = decimal n := by
    rw [List.take_append, List.take_of_length_le hlen, List.takeWhile_append_of_pos hdig]
    cases hk : 5 - (decimal n).length <;> simp [isDigit]
  rw [parseOscDecimal8, hspace]
  simp only [htake, decimal_value, List.drop_left, if_pos h]

theorem received_palette {i : Int} {r g b : Nat} (hi : 0 ≤ i ∧ i ≤ 32767) (hr : r < 256) (hg : g < 256) (hb : b < 256) :
    received (vtMsgSend .setPaletteColor (.palette i r g b)) = echo .setPaletteColor (.palette i r g b) := by
  obtain ⟨n, rfl⟩ := Int.eq_ofNat_of_zero_le hi.1
  let color : List Char32 :=
    vtAppendHexByte r ++ chars ['/'] ++ vtAppendHexByte g ++ chars ['/'] ++ vtAppendHexByte b
  have hhex {v : Nat} (h : v < 256) {ch : Char32} (hc : ch ∈ vtAppendHexByte v) : isC0OrDel ch = false :=
    isC0OrDel_of_isHexDigit ((vtAppendHexByte_digits h).1 ch hc)
  have hcolor : ∀ ch ∈ color, isC0OrDel ch = false := by
    intro ch hc
    simp only [color, List.mem_append, or_assoc] at hc
    rcases hc with hc | hc | hc | hc | hc
    · exact hhex hr hc
    · exact List.mem_singleton.mp hc ▸ rfl
    · exact hhex hg hc
    · exact List.mem_singleton.mp hc ▸ rfl
    · exact hhex hb hc
  have hplain : ∀ ch ∈ decimal n ++ 0x3B :: 0x72 :: 0x67 :: 0x62 :: 0x3A :: color, isC0OrDel ch = false := by
    intro ch hc
    rcases List.mem_append.mp hc with hc | hc
    · exact isC0OrDel_of_isHexDigit (by simp [isHexDigit, decimal_isDigit n ch hc])
    · simp only [List.mem_cons] at hc
      rcases hc with rfl | rfl | rfl | rfl | rfl | hc
      any_goals rfl
      exact hcolor ch hc
  have hstring : IsOscString (0x34 :: 0x3B :: (decimal n ++ 0x3B :: 0x72 :: 0x67 :: 0x62 :: 0x3A :: color)) :=
    isOscString_plain (List.forall_mem_cons.mpr ⟨rfl, List.forall_mem_cons.mpr ⟨rfl, hplain⟩⟩)
  have hd : dispatchOsc (0x1B :: 0x5D ::
      (0x34 :: 0x3B :: (decimal n ++ 0x3B :: 0x72 :: 0x67 :: 0x62 :: 0x3A :: color) ++ [0x07])) .none =
      (.setPaletteColor, .palette n r g b) := by
    have hterm := untilTerminator_append (.inl rfl) _ .string (isOscString_plain hplain)
    have hindex := @parseOscDecimal8_append n (by omega) (0x72 :: 0x67 :: 0x62 :: 0x3A :: color)
    have h1 : parseOscHex8 color = (r, vtAppendHexByte g ++ 0x2F :: vtAppendHexByte b) := by
      have hc : color = vtAppendHexByte r ++ 0x2F :: (vtAppendHexByte g ++ 0x2F :: vtAppendHexByte b) := by
        simp [color, chars]
      rw [hc, parseOscHex8_append hr, List.dropWhile_cons_of_pos rfl, dropWhile_hex hg]
    have h2 : parseOscHex8 (vtAppendHexByte g ++ 0x2F :: vtAppendHexByte b) = (g, vtAppendHexByte b) := by
      have hb' := @dropWhile_hex b hb []
      rw [List.append_nil] at hb'
      rw [parseOscHex8_append hg, List.dropWhile_cons_of_pos rfl, hb']
    have h3 : parseOscHex8 (vtAppendHexByte b) = (b, []) := by
      simpa using @parseOscHex8_append b hb []
    have hlen : color.length ≠ 0 := by simp [color, vtAppendHexByte]
    simp only [List.append_assoc, List.cons_append] at hterm
    simp [dispatchOsc, isDigit, i16, hterm, hindex, hasRgbPrefix, h1, h2, h3, hlen.symm]
  have h := received_osc hstring hd (by decide) (by decide)
  simpa [vtMsgSend, VtPayload.paletteValue, vtAppendInt_natCast, chars, color, echo, VtMessageId.carries, VtMessageId.sentBare]
    using h

end RoundTrip

/-! ## SGR -/

namespace VtSgrPayload

variable {m : VtSgrPayload}

theorem flagBit_pow (f : VtSgrFlag) : ∃ i, (vtSgrFlagBit f).toNat = 2 ^ i := by
  cases f
  exacts [⟨0, rfl⟩, ⟨1, rfl⟩, ⟨2, rfl⟩, ⟨3, rfl⟩, ⟨4, rfl⟩, ⟨5, rfl⟩, ⟨6, rfl⟩, ⟨7, rfl⟩, ⟨8, rfl⟩]

/-- Two words of flags are equal when they have the same flags. -/
theorem flags_eq {x y : UInt16} (hx : x &&& 0x1FF = x) (hy : y &&& 0x1FF = y)
    (h : ∀ f, (x &&& vtSgrFlagBit f != 0) = (y &&& vtSgrFlagBit f != 0)) : x = y := by
  let flags : List VtSgrFlag := [.reset, .bold, .faint, .italic, .underline, .blink, .negative, .conceal, .strikethrough]
  refine eq_of_fields (0xFE00 :: flags.map vtSgrFlagBit) (by decide) fun m hm => ?_
  rcases List.mem_cons.mp hm with rfl | hm
  · rw [← hx, ← hy, UInt16.and_assoc, UInt16.and_assoc, show (0x1FF : UInt16) &&& 0xFE00 = 0 by decide,
      UInt16.and_zero, UInt16.and_zero]
  · obtain ⟨f, -, rfl⟩ := List.mem_map.mp hm
    obtain ⟨i, hi⟩ := flagBit_pow f
    have hf := h f
    rcases and_pow_eq x hi with h1 | h1 <;> rcases and_pow_eq y hi with h2 | h2 <;> rw [h1, h2] at hf ⊢
    all_goals
      have : vtSgrFlagBit f ≠ 0 := by cases f <;> decide
      simp_all

/-- Two payloads with the same flags and colours are equal. -/
theorem eq_of_flags {a b : VtSgrPayload} (ha : a.Collected) (hb : b.Collected) (hh : ∀ f, a.has f = b.has f)
    (hc : ∀ f, a.clears f = b.clears f) (hf : a.fg = b.fg) (hg : a.bg = b.bg) : a = b := by
  have h1 := flags_eq ha.set hb.set hh
  have h2 := flags_eq ha.clear hb.clear hc
  obtain ⟨as, ac, af, ab⟩ := a
  obtain ⟨bs, bc, bf, bb⟩ := b
  simp only at hf hg h1 h2
  rw [hf, hg, h1, h2]

/-! The parameters of a payload as parameter groups. -/

def colorOps (base : Int) : VtSgrColor → List SgrOp
  | .none => []
  | .default => [.single (base + 9)]
  | .rgb r g b => [.rgb (base + 8) r g b]
  | .indexed value =>
    if value ≤ 7 then [.single (base + value)]
    else if value ≤ 15 then [.single (base + 60 + (value - 8))]
    else [.indexed (base + 8) value]

def setOps (m : VtSgrPayload) : List SgrOp := (flagParams.filter fun p => m.has p.1).map fun p => .single p.2

def clearOps (m : VtSgrPayload) : List SgrOp := (clearParams.filter fun p => m.clears p.1).map fun p => .single p.2

def weightOps (m : VtSgrPayload) : List SgrOp := if m.clears .bold || m.clears .faint then [.single 22] else []

def sendOps (m : VtSgrPayload) : List SgrOp :=
  .single 0 :: (m.setOps ++ m.weightOps ++ m.clearOps ++ colorOps 30 m.fg ++ colorOps 40 m.bg)

theorem flatMap_single (l : List (VtSgrFlag × Int)) :
    (l.map fun p => SgrOp.single p.2).flatMap SgrOp.params = l.map Prod.snd := by
  induction l with
  | nil => rfl
  | cons p l ih => rw [List.map_cons, List.flatMap_cons, ih]; rfl

theorem flatMap_colorOps (base : Int) (color : VtSgrColor) :
    (colorOps base color).flatMap SgrOp.params = colorParams base color := by
  cases color with
  | indexed value =>
    simp only [colorOps, colorParams]
    split
    · rfl
    · split <;> rfl
  | _ => rfl

theorem sendParams_eq (m : VtSgrPayload) : m.sendParams = m.sendOps.flatMap SgrOp.params := by
  have hweight : m.weightOps.flatMap SgrOp.params = if m.clears .bold || m.clears .faint then [22] else [] := by
    unfold weightOps
    split <;> rfl
  simp only [sendParams, sendOps, List.flatMap_cons, List.flatMap_append, flatMap_colorOps, hweight, setOps, clearOps,
    flatMap_single]
  rfl

theorem colorOps_complete {base : Int} (hb : base = 30 ∨ base = 40) (color : VtSgrColor) :
    ∀ g ∈ colorOps base color, g.Complete := by
  unfold colorOps
  intro g hg
  repeat' split at hg
  all_goals simp only [List.not_mem_nil, List.mem_singleton] at hg
  all_goals subst hg
  all_goals simp only [SgrOp.Complete]
  all_goals omega

theorem sendOps_complete (m : VtSgrPayload) : ∀ g ∈ m.sendOps, g.Complete := by
  have hset : ∀ p ∈ flagParams, (SgrOp.single p.2).Complete := by decide
  have hclear : ∀ p ∈ clearParams, (SgrOp.single p.2).Complete := by decide
  intro g hg
  simp only [sendOps, List.mem_cons, List.mem_append, or_assoc] at hg
  rcases hg with rfl | hg | hg | hg | hg | hg
  · decide
  · obtain ⟨p, hp, rfl⟩ := List.mem_map.mp hg
    exact hset p (List.mem_filter.mp hp).1
  · unfold weightOps at hg
    split at hg
    · rw [List.mem_singleton.mp hg]
      decide
    · simp at hg
  · obtain ⟨p, hp, rfl⟩ := List.mem_map.mp hg
    exact hclear p (List.mem_filter.mp hp).1
  · exact colorOps_complete (.inl rfl) _ g hg
  · exact colorOps_complete (.inr rfl) _ g hg

/-! What the groups do to a payload. -/

/-- Parameters that set flags. -/
theorem foldl_set : ∀ {l : List (VtSgrFlag × Int)} (m : VtSgrPayload), (∀ p ∈ l, SgrAction.ofParam p.2 = .set p.1) →
    (l.map fun p => SgrOp.single p.2).foldl (fun m g => g.action.run m) m = l.foldl (fun m p => m.set p.1) m
  | [], _, _ => rfl
  | p :: l, m, h => by
    rw [List.map_cons, List.foldl_cons, List.foldl_cons, SgrOp.action, h p List.mem_cons_self]
    exact foldl_set _ fun q hq => h q (List.mem_cons_of_mem _ hq)

theorem foldl_clear : ∀ {l : List (VtSgrFlag × Int)} (m : VtSgrPayload), (∀ p ∈ l, SgrAction.ofParam p.2 = .clear p.1) →
    (l.map fun p => SgrOp.single p.2).foldl (fun m g => g.action.run m) m = l.foldl (fun m p => m.clear p.1) m
  | [], _, _ => rfl
  | p :: l, m, h => by
    rw [List.map_cons, List.foldl_cons, List.foldl_cons, SgrOp.action, h p List.mem_cons_self]
    exact foldl_clear _ fun q hq => h q (List.mem_cons_of_mem _ hq)

theorem mem_flags_cons (p : VtSgrFlag × Int) (l : List (VtSgrFlag × Int)) (f : VtSgrFlag) :
    decide (f ∈ (p :: l).map Prod.fst) = (decide (p.1 = f) || decide (f ∈ l.map Prod.fst)) := by
  rw [← Bool.decide_or, decide_eq_decide, List.map_cons, List.mem_cons, eq_comm]

theorem foldl_set_flags : ∀ (l : List (VtSgrFlag × Int)) (m : VtSgrPayload) (f : VtSgrFlag),
    (l.foldl (fun m p => m.set p.1) m).has f = (decide (f ∈ l.map Prod.fst) || m.has f) ∧
    (l.foldl (fun m p => m.set p.1) m).clears f = (!decide (f ∈ l.map Prod.fst) && m.clears f)
  | [], m, f => by simp
  | p :: l, m, f => by
    obtain ⟨h1, h2⟩ := foldl_set_flags l (m.set p.1) f
    rw [List.foldl_cons, h1, h2, has_set, clears_set, mem_flags_cons]
    by_cases hf : p.1 = f <;> simp [hf]

theorem foldl_clear_flags : ∀ (l : List (VtSgrFlag × Int)) (m : VtSgrPayload) (f : VtSgrFlag),
    (l.foldl (fun m p => m.clear p.1) m).has f = (!decide (f ∈ l.map Prod.fst) && m.has f) ∧
    (l.foldl (fun m p => m.clear p.1) m).clears f = (decide (f ∈ l.map Prod.fst) || m.clears f)
  | [], m, f => by simp
  | p :: l, m, f => by
    obtain ⟨h1, h2⟩ := foldl_clear_flags l (m.clear p.1) f
    rw [List.foldl_cons, h1, h2, has_clear, clears_clear, mem_flags_cons]
    by_cases hf : p.1 = f <;> simp [hf]

theorem foldl_colorOps {base : Int} (hb : base = 30 ∨ base = 40) {color : VtSgrColor} (hc : color.IsBytes)
    (hne : color ≠ .none) (m : VtSgrPayload) :
    (colorOps base color).foldl (fun m g => g.action.run m) m = m.setColor (base + 8) color := by
  have hbyte {n : Nat} (h : n < 256) : u8OfShort n = n := by
    unfold u8OfShort
    omega
  cases color with
  | none => exact absurd rfl hne
  | default => rcases hb with rfl | rfl <;> rfl
  | rgb r g b =>
    simp only [colorOps, List.foldl_cons, List.foldl_nil, SgrOp.action, SgrAction.run_ofColor, hbyte hc.1, hbyte hc.2.1,
      hbyte hc.2.2]
  | indexed value =>
    have hlow : ∀ value ≤ 7, SgrAction.ofParam (30 + (value : Nat)) = .foreground (.indexed value) ∧
        SgrAction.ofParam (40 + (value : Nat)) = .background (.indexed value) := by decide
    have hhigh : ∀ value ≤ 15, 7 < value → SgrAction.ofParam (30 + 60 + ((value : Nat) - 8)) = .foreground (.indexed value) ∧
        SgrAction.ofParam (40 + 60 + ((value : Nat) - 8)) = .background (.indexed value) := by decide
    simp only [colorOps]
    split
    · rename_i h7
      rcases hb with rfl | rfl
      · rw [List.foldl_cons, SgrOp.action, (hlow value h7).1]; rfl
      · rw [List.foldl_cons, SgrOp.action, (hlow value h7).2]; rfl
    · split
      · rename_i h7 h15
        rcases hb with rfl | rfl
        · rw [List.foldl_cons, SgrOp.action, (hhigh value h15 (Nat.lt_of_not_le h7)).1]; rfl
        · rw [List.foldl_cons, SgrOp.action, (hhigh value h15 (Nat.lt_of_not_le h7)).2]; rfl
      · simp only [List.foldl_cons, List.foldl_nil, SgrOp.action, SgrAction.run_ofColor, hbyte hc]

theorem foldl_foreground (h : m.Collected) (m' : VtSgrPayload) (h0 : m'.fg = .none) :
    (colorOps 30 m.fg).foldl (fun m g => g.action.run m) m' = { m' with fg := m.fg } := by
  by_cases hn : m.fg = .none
  · rw [hn, colorOps, List.foldl_nil, ← h0]
  · rw [foldl_colorOps (.inl rfl) h.fg hn]
    rfl

theorem foldl_background (h : m.Collected) (m' : VtSgrPayload) (h0 : m'.bg = .none) :
    (colorOps 40 m.bg).foldl (fun m g => g.action.run m) m' = { m' with bg := m.bg } := by
  by_cases hn : m.bg = .none
  · rw [hn, colorOps, List.foldl_nil, ← h0]
  · rw [foldl_colorOps (.inr rfl) h.bg hn]
    rfl

theorem foldl_set_colors : ∀ (l : List (VtSgrFlag × Int)) (m : VtSgrPayload),
    (l.foldl (fun m p => m.set p.1) m).fg = m.fg ∧ (l.foldl (fun m p => m.set p.1) m).bg = m.bg
  | [], _ => ⟨rfl, rfl⟩
  | p :: l, m => foldl_set_colors l (m.set p.1)

theorem foldl_clear_colors : ∀ (l : List (VtSgrFlag × Int)) (m : VtSgrPayload),
    (l.foldl (fun m p => m.clear p.1) m).fg = m.fg ∧ (l.foldl (fun m p => m.clear p.1) m).bg = m.bg
  | [], _ => ⟨rfl, rfl⟩
  | p :: l, m => foldl_clear_colors l (m.clear p.1)

/-- The flags that are set, and those that are cleared after the first two. -/
theorem mem_setFlags (m : VtSgrPayload) (f : VtSgrFlag) :
    decide (f ∈ (flagParams.filter fun p => m.has p.1).map Prod.fst) = (decide (f ≠ .reset) && m.has f) := by
  cases f <;> simp [flagParams]

theorem mem_clearFlags (m : VtSgrPayload) (f : VtSgrFlag) :
    decide (f ∈ (clearParams.filter fun p => m.clears p.1).map Prod.fst) =
      (decide (f ≠ .reset ∧ f ≠ .bold ∧ f ≠ .faint) && m.clears f) := by
  cases f <;> simp [clearParams]

/-- The payload that the groups build up, but for its colours. -/
def sentFlags (m : VtSgrPayload) : VtSgrPayload :=
  let set := (flagParams.filter fun p => m.has p.1).foldl (fun m p => m.set p.1) (({} : VtSgrPayload).set .reset)
  let weight := if m.clears .bold || m.clears .faint then (set.clear .bold).clear .faint else set
  (clearParams.filter fun p => m.clears p.1).foldl (fun m p => m.clear p.1) weight

theorem foldl_sendOps (h : m.Collected) :
    m.sendOps.foldl (fun m g => g.action.run m) {} = { m.sentFlags with fg := m.fg, bg := m.bg } := by
  have hset : ∀ p ∈ flagParams.filter fun p => m.has p.1, SgrAction.ofParam p.2 = .set p.1 := fun p hp =>
    (show ∀ p ∈ flagParams, SgrAction.ofParam p.2 = .set p.1 by decide) p (List.mem_filter.mp hp).1
  have hclear : ∀ p ∈ clearParams.filter fun p => m.clears p.1, SgrAction.ofParam p.2 = .clear p.1 := fun p hp =>
    (show ∀ p ∈ clearParams, SgrAction.ofParam p.2 = .clear p.1 by decide) p (List.mem_filter.mp hp).1
  have hcolors : m.sentFlags.fg = .none ∧ m.sentFlags.bg = .none := by
    unfold sentFlags
    dsimp only
    obtain ⟨h1, h2⟩ := foldl_set_colors (flagParams.filter fun p => m.has p.1) (({} : VtSgrPayload).set .reset)
    rw [(foldl_clear_colors _ _).1, (foldl_clear_colors _ _).2]
    split
    · exact ⟨h1, h2⟩
    · exact ⟨h1, h2⟩
  have hflags : (m.setOps ++ m.weightOps ++ m.clearOps).foldl (fun m g => g.action.run m) (({} : VtSgrPayload).set .reset) =
      m.sentFlags := by
    rw [List.foldl_append, List.foldl_append, setOps, foldl_set _ hset, clearOps, foldl_clear _ hclear, sentFlags, weightOps]
    split <;> rfl
  have hzero : SgrOp.action (.single 0) = .set .reset := rfl
  rw [sendOps, List.foldl_cons, hzero, SgrAction.run, List.append_assoc, List.foldl_append, hflags, List.foldl_append,
    foldl_foreground h _ hcolors.1]
  exact foldl_background h { m.sentFlags with fg := m.fg } hcolors.2

theorem sentFlags_flags (m : VtSgrPayload) (f : VtSgrFlag) :
    let weight : Bool := (m.clears .bold || m.clears .faint) && decide (f = .bold ∨ f = .faint)
    let cleared : Bool := decide (f ≠ .reset ∧ f ≠ .bold ∧ f ≠ .faint) && m.clears f
    m.sentFlags.has f = (!cleared && (!weight && (decide (f = .reset) || m.has f))) ∧
      m.sentFlags.clears f = (cleared || weight) := by
  have hset := foldl_set_flags (flagParams.filter fun p => m.has p.1) (({} : VtSgrPayload).set .reset) f
  rw [mem_setFlags] at hset
  unfold sentFlags
  dsimp only
  rw [(foldl_clear_flags _ _ f).1, (foldl_clear_flags _ _ f).2, mem_clearFlags]
  have h0 : ({} : VtSgrPayload).has f = false ∧ ({} : VtSgrPayload).clears f = false := by cases f <;> decide
  rw [has_set, clears_set, h0.1, h0.2] at hset
  cases hw : (m.clears .bold || m.clears .faint)
  · rw [if_neg (by simp), hset.1, hset.2]
    cases f <;> simp
  · rw [if_pos rfl, has_clear, has_clear, clears_clear, clears_clear, hset.1, hset.2]
    cases f <;> simp

/-- The payload that the groups of a payload sent whole build up. -/
theorem foldl_sendOps_whole (h : m.Collected) (hr : m.has .reset = false)
    (hw : ¬ ((m.has .bold ∨ m.has .faint) ∧ (m.clears .bold ∨ m.clears .faint))) :
    m.sendOps.foldl (fun m g => g.action.run m) {} = m.set .reset := by
  have hcollected : (m.sendOps.foldl (fun m (g : SgrOp) => g.action.run m) {}).Collected :=
    Collected.empty.sgrParams (SgrOp.sgrParams_flatMap {} m.sendOps_complete)
  rw [foldl_sendOps h] at hcollected ⊢
  refine eq_of_flags hcollected (h.mk_set .reset) (fun f => ?_) (fun f => ?_) rfl rfl
  · change m.sentFlags.has f = _
    have := h.exclusive f
    rw [(sentFlags_flags m f).1, has_set]
    cases f <;> simp_all
  · change m.sentFlags.clears f = _
    have hreset := h.reset
    have hsame : m.clears .bold = m.clears .faint := by
      rw [Bool.eq_iff_iff]
      refine ⟨fun hc => (h.bold hc).resolve_right fun hf => ?_, fun hc => (h.faint hc).resolve_right fun hf => ?_⟩
      · exact hw ⟨.inr hf, .inl hc⟩
      · exact hw ⟨.inl hf, .inr hc⟩
    rw [(sentFlags_flags m f).2, clears_set]
    cases f <;> simp_all

theorem colorParams_range {base : Int} (hb : 0 ≤ base ∧ base ≤ 40) {color : VtSgrColor} (hc : color.IsBytes) :
    ∀ v ∈ colorParams base color, 0 ≤ v ∧ v ≤ 255 := by
  cases color with
  | indexed value =>
    simp only [VtSgrColor.IsBytes] at hc
    simp only [colorParams]
    split
    · simp; omega
    · split
      · simp; omega
      · simp; omega
  | rgb r g b =>
    obtain ⟨h1, h2, h3⟩ := hc
    simp [colorParams]
    omega
  | none => simp [colorParams]
  | default => simp [colorParams]; omega

theorem sendParams_range (h : m.Collected) : ∀ v ∈ m.sendParams, 0 ≤ v ∧ v ≤ 255 := by
  have hset : ∀ p ∈ flagParams, 0 ≤ p.2 ∧ p.2 ≤ 255 := by decide
  have hclear : ∀ p ∈ clearParams, 0 ≤ p.2 ∧ p.2 ≤ 255 := by decide
  intro v hv
  simp only [sendParams, List.mem_cons, List.mem_append, or_assoc] at hv
  rcases hv with rfl | hv | hv | hv | hv | hv
  · decide
  · obtain ⟨p, hp, rfl⟩ := List.mem_map.mp hv
    exact hset p (List.mem_filter.mp hp).1
  · split at hv
    · rw [List.mem_singleton.mp hv]
      decide
    · simp at hv
  · obtain ⟨p, hp, rfl⟩ := List.mem_map.mp hv
    exact hclear p (List.mem_filter.mp hp).1
  · exact colorParams_range (by decide) h.fg v hv
  · exact colorParams_range (by decide) h.bg v hv

end VtSgrPayload

namespace RoundTrip

theorem received_sgr {m : VtSgrPayload} (h : m.Collected) (hw : m.SentWhole) :
    received (vtMsgSend .sgr (.sgr m)) = echo .sgr (.sgr m) := by
  rcases hw with rfl | ⟨hr, hlen, hw⟩
  · decide
  · have hrange := VtSgrPayload.sendParams_range h
    have hov := CsiParams.ofValues_overflow m.sendParams
    have hparams : sgrParams {} ((CsiParams.ofValues m.sendParams).params.take (CsiParams.ofValues m.sendParams).paramIndex) =
        some (m.set .reset) := by
      rw [CsiParams.ofValues_take, List.take_of_length_le hlen, VtSgrPayload.sendParams_eq,
        SgrOp.sgrParams_flatMap {} m.sendOps_complete, VtSgrPayload.foldl_sendOps_whole h hr hw]
    obtain ⟨h1, h2⟩ := SgrGroup.dispatchCsi_sgr (by simpa [hov] using hlen) hparams {}
    have hsend : vtMsgSend .sgr (.sgr m) = 0x1B :: 0x5B :: (joinParams (m.sendParams.map vtAppendInt) ++ [0x6D]) := by
      rw [vtMsgSend, VtPayload.sgrValue, vtSendSgr, if_neg (by simp [hr])]
      rfl
    rw [hsend, received_numbers (by simp [VtSgrPayload.sendParams]) (fun v hv => (hrange v hv).1)
      (fun v hv => ⟨by have := hrange v hv; omega, by have := hrange v hv; omega⟩)
      rfl (Prod.ext h1 rfl) (by decide) (by decide), h2]
    rfl

end RoundTrip

/-! ## Every message -/

open RoundTrip

/-- What comes back of a message that the parser has produced. -/
theorem received_vtMsgSend {A : Char32 → Prop} {id : VtMessageId} {payload : VtPayload} (h : Produced A id payload)
    (hs : id.Sent) (hc : payload.Clean) : received (vtMsgSend id payload) = echo id payload := by
  rcases hs with hid | hid | hid
  · exact received_bare hid payload
  · obtain ⟨p, hp, rfl⟩ := List.mem_map.mp hid
    obtain ⟨n, rfl, h0, hn⟩ : ∃ n, payload = .count n ∧ n ≠ 0 ∧ IsShort n := by
      simp only [VtMessageId.sentCounts, List.mem_cons, List.not_mem_nil, or_false] at hp
      rcases hp with rfl | rfl | rfl | rfl | rfl | rfl | rfl | rfl | rfl | rfl | rfl | rfl | rfl | rfl | rfl <;> exact h
    exact received_count hp h0 hn hc
  · simp only [VtMessageId.sentOthers, List.mem_cons, List.not_mem_nil, or_false] at hid
    rcases hid with rfl | rfl | rfl | rfl | rfl | rfl | rfl | rfl | rfl | rfl | rfl
    · obtain ⟨ch, rfl, hch, -⟩ := h
      exact received_text hch
    · obtain ⟨t, rfl, ht, -⟩ := h
      exact received_title ht
    · obtain ⟨n, rfl, h0, hn⟩ := h
      exact received_number hc hn rfl (dispatchCsi_row h0 hn).1 (by decide) (by decide)
    · obtain ⟨n, rfl, h0, hn⟩ := h
      exact received_number hc hn rfl (dispatchCsi_row h0 hn).2 (by decide) (by decide)
    · obtain ⟨r, c, rfl, hr, hcol⟩ := h
      exact received_position hr hcol hc
    · obtain ⟨n, rfl, hn⟩ := h
      exact received_shape hc hn
    · obtain ⟨n, rfl, hn⟩ := h
      exact received_number hc hn rfl (dispatchCsi_erase hn).1 (by decide) (by decide)
    · obtain ⟨n, rfl, hn⟩ := h
      exact received_number hc hn rfl (dispatchCsi_erase hn).2 (by decide) (by decide)
    · obtain ⟨t, b, rfl, ht, hb⟩ := h
      exact received_pair hc.1 hc.2 ht hb rfl (dispatchCsi_region ht hb) (by decide) (by decide)
    · obtain ⟨m, rfl, hm⟩ := h
      exact received_sgr hm hc
    · obtain ⟨i, r, g, b, rfl, hi, hr, hg, hb⟩ := h
      exact received_palette hi hr hg hb

/-! ## Characters that are sent -/

theorem isScalar_of_lt {ch : Char32} (h : ch < 0x80) : IsScalar ch := .inl (Nat.lt_trans h (by decide))

theorem scalar_append {s t : List Char32} (hs : ∀ ch ∈ s, IsScalar ch) (ht : ∀ ch ∈ t, IsScalar ch) :
    ∀ ch ∈ s ++ t, IsScalar ch := List.forall_mem_append.mpr ⟨hs, ht⟩

theorem scalar_vtAppendInt (n : Int) : ∀ ch ∈ vtAppendInt n, IsScalar ch := by
  have hdec : ∀ ch ∈ decimal n.natAbs, IsScalar ch := fun ch hc => by
    have h := decimal_isDigit _ ch hc
    simp only [isDigit, Bool.and_eq_true, decide_eq_true_eq] at h
    exact isScalar_of_lt (Nat.lt_of_le_of_lt h.2 (by decide))
  unfold vtAppendInt
  split
  · exact List.forall_mem_cons.mpr ⟨isScalar_of_lt (by decide), hdec⟩
  · exact hdec

set_option maxRecDepth 4096 in
theorem scalar_hexByte {v : Nat} (h : v < 256) : ∀ ch ∈ vtAppendHexByte v, IsScalar ch := by
  have hall : ∀ v < 256, ∀ ch ∈ vtAppendHexByte v, ch < 0x80 := by decide
  exact fun ch hc => isScalar_of_lt (hall v h ch hc)

theorem scalar_joinParams : ∀ (vs : List Int), ∀ ch ∈ joinParams (vs.map vtAppendInt), IsScalar ch
  | [], ch, hc => by simp [joinParams] at hc
  | [v], ch, hc => scalar_vtAppendInt v ch hc
  | v :: v' :: vs, ch, hc => by
    rw [List.map_cons, List.map_cons, joinParams, List.mem_append, List.mem_cons] at hc
    rcases hc with hc | rfl | hc
    · exact scalar_vtAppendInt v ch hc
    · exact isScalar_of_lt (by decide)
    · exact scalar_joinParams (v' :: vs) ch hc

theorem scalar_sendNumber (n : Int) {final : Char} (h : final.toNat < 0x80) : ∀ ch ∈ sendNumber n final, IsScalar ch :=
  scalar_append (scalar_append (by decide) (scalar_vtAppendInt n))
    (List.forall_mem_singleton.mpr (isScalar_of_lt h))

theorem scalar_sendElided (n : Int) {final : Char} (h : final.toNat < 0x80) : ∀ ch ∈ sendElided n final, IsScalar ch := by
  unfold sendElided
  split
  · exact scalar_sendNumber n h
  · exact scalar_append (s := chars ['\x1b', '[']) (by decide) (List.forall_mem_singleton.mpr (isScalar_of_lt h))

/-- Two numbers between other characters. -/
theorem scalar_pair (r c : Int) {final : Char} (h : final.toNat < 0x80) :
    ∀ ch ∈ chars ['\x1b', '['] ++ vtAppendInt r ++ chars [';'] ++ vtAppendInt c ++ chars [final], IsScalar ch :=
  scalar_append (scalar_append (scalar_append (scalar_append (by decide) (scalar_vtAppendInt r)) (by decide))
    (scalar_vtAppendInt c)) (List.forall_mem_singleton.mpr (isScalar_of_lt h))

/-- Only scalar values are sent, when only scalar values have been read. -/
theorem scalar_vtMsgSend {id : VtMessageId} {payload : VtPayload} (h : Produced IsScalar id payload) (hs : id.Sent) :
    ∀ ch ∈ vtMsgSend id payload, IsScalar ch := by
  rcases hs with hid | hid | hid
  · have hall : ∀ id ∈ VtMessageId.sentBare, ∀ ch ∈ vtMsgSend id .none, IsScalar ch := by decide
    rw [(vtMsgSend_bare hid payload).1]
    exact hall id hid
  · obtain ⟨p, hp, rfl⟩ := List.mem_map.mp hid
    simp only [VtMessageId.sentCounts, List.mem_cons, List.not_mem_nil, or_false] at hp
    rcases hp with rfl | rfl | rfl | rfl | rfl | rfl | rfl | rfl | rfl | rfl | rfl | rfl | rfl | rfl | rfl
    all_goals first
      | exact scalar_sendElided _ (by decide)
      | exact scalar_sendNumber _ (by decide)
  · simp only [VtMessageId.sentOthers, List.mem_cons, List.not_mem_nil, or_false] at hid
    rcases hid with rfl | rfl | rfl | rfl | rfl | rfl | rfl | rfl | rfl | rfl | rfl
    · obtain ⟨ch, rfl, -, hch⟩ := h
      exact List.forall_mem_singleton.mpr hch
    · obtain ⟨t, rfl, -, ht⟩ := h
      rw [vtMsgSend, VtPayload.titleValue, vtWriteWindowTitle]
      by_cases he : t.isEmpty
      · rw [if_pos he]
        simp
      · rw [if_neg he]
        exact scalar_append (scalar_append (by decide) ht) (by decide)
    · exact scalar_sendNumber _ (by decide)
    · exact scalar_sendNumber _ (by decide)
    · exact scalar_pair _ _ (by decide)
    · exact scalar_append (scalar_append (by decide) (scalar_vtAppendInt _)) (by decide)
    · exact scalar_sendNumber _ (by decide)
    · exact scalar_sendNumber _ (by decide)
    · exact scalar_pair _ _ (by decide)
    · rw [vtMsgSend, vtSendSgr]
      by_cases he : payload.sgrValue.has .reset
      · rw [if_pos he]
        decide
      · rw [if_neg he]
        exact scalar_append (scalar_append (by decide) (scalar_joinParams _)) (by decide)
    · obtain ⟨i, r, g, b, rfl, -, hr, hg, hb⟩ := h
      refine scalar_append (scalar_append (scalar_append (scalar_append (scalar_append (scalar_append (scalar_append
        (scalar_append ?_ (scalar_vtAppendInt i)) ?_) (scalar_hexByte hr)) ?_) (scalar_hexByte hg)) ?_) (scalar_hexByte hb)) ?_
      all_goals decide

theorem sent_ne {id : VtMessageId} (h : id.Sent) : id ≠ .continueText := by
  rintro rfl
  exact absurd h (by decide)

/-- A message that is sent comes back as `echo` says, through any encoding of
the characters in bytes that reads Unicode scalar values back. -/
theorem sent_message_read_back {Bytes : Type} (toBytes : List Char32 → Bytes) (ofBytes : Bytes → List Char32)
    (hcodec : ∀ s, (∀ ch ∈ s, IsScalar ch) → ofBytes (toBytes s) = s) {input : List Char32}
    (hin : ∀ ch ∈ input, IsScalar ch) {m : Emitted} (hm : m ∈ (VtParser.feed {} input).1) (hsent : m.id.Sent)
    (hclean : m.message.payload.Clean) :
    received (ofBytes (toBytes (vtMsgSend m.id m.message.payload))) = echo m.id m.message.payload := by
  have hp := feed_produced hin m hm (sent_ne hsent)
  rw [hcodec _ (scalar_vtMsgSend hp hsent)]
  exact received_vtMsgSend hp hsent hclean

/-- UTF-8. -/
def utf8Encode (s : List Char32) : ByteArray := (String.ofList (s.map Char.ofNat)).toUTF8

def utf8Decode (b : ByteArray) : List Char32 := ((b.utf8Decode?).getD #[]).toList.map Char.toNat

theorem utf8Decode_utf8Encode (s : List Char32) (h : ∀ ch ∈ s, IsScalar ch) : utf8Decode (utf8Encode s) = s := by
  have hch : ∀ ch ∈ s, (Char.toNat ∘ Char.ofNat) ch = ch := by
    intro ch hc
    have hv : Nat.isValidChar ch := by
      rcases h ch hc with h | ⟨h1, h2⟩
      · exact .inl h
      · exact .inr ⟨Nat.lt_of_lt_of_le (by decide) h1, h2⟩
    rw [Function.comp_apply, Char.ofNat, dif_pos hv]
    rfl
  rw [utf8Decode, utf8Encode, String.toUTF8_eq_toByteArray, String.toByteArray_ofList, List.utf8Decode?_utf8Encode,
    Option.getD_some, List.toList_toArray, List.map_map]
  exact (List.map_congr_left hch).trans (List.map_id s)

/-- `CSI 5 A`. -/
theorem sent_message_read_back_cursor_up :
    received (utf8Decode (utf8Encode (vtMsgSend .cursorUp (.count 5)))) = echo .cursorUp (.count 5) :=
  @sent_message_read_back _ utf8Encode utf8Decode utf8Decode_utf8Encode (chars ['\x1b', '[', '5', 'A']) (by decide)
    ⟨.cursorUp, { payload := .count 5 }, chars ['\x1b', '[', '5', 'A']⟩ (by decide) (by decide)
    (by simp [VtPayload.Clean])

/-- `CSI s` is sent as `ESC 7`, another message. -/
theorem ansi_save_cursor_not_read_back :
    ∃ m ∈ (VtParser.feed {} (chars ['\x1b', '[', 's'])).1, m.id.Sent ∧
      received (vtMsgSend m.id m.message.payload) ≠ [m.seen] := by
  decide

end Corehost
