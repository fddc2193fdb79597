import Corehost.Parser.Message

/-!
# The VT parser

The model of `vt_parser` (`vt_parser.hpp`), in the order of the source. The
raw buffer that the parser shares with its caller is a field of the state, and
the `u32string_view` fields of a message hold the characters they point to.

The parameters of a CSI sequence and those of an OSC sequence are records of
their own, since `_reset_params` and the entry into an OSC sequence reset
exactly these fields.
-/

namespace Corehost

open Lib

/-- `parser_mode`. -/
inductive ParserMode where
  | ground | esc | csi | osc | ss3 | oscSt
deriving DecidableEq, Repr

/-- `MAX_PARAMS`. -/
def MAX_PARAMS : Nat := 16

/-- The fields that `_reset_params` resets. -/
structure CsiParams where
  privateMarker : Bool := false
  params : List Int := List.replicate MAX_PARAMS 0
  paramIndex : Nat := 0
  currentParam : Int := 0
  hasParam : Bool := false
  intermediate : Char32 := 0
  csiOverflow : Bool := false
deriving DecidableEq, Repr

/-- The OSC accumulators. `_osc_buf` has 32 elements. -/
structure OscParams where
  oscCode : Int := 0
  oscBuf : List Char32 := List.replicate 32 0
  oscLen : Nat := 0
  oscHadSemi : Bool := false
deriving DecidableEq, Repr

structure VtParser where
  groundControlChar : Char32 := 0
  msg : VtMessage := {}
  raw : List Char32 := []
  seqStart : Nat := 0
  mode : ParserMode := .ground
  csi : CsiParams := {}
  osc : OscParams := {}
deriving DecidableEq, Repr

/-! ## Character classes -/

def isC0OrDel (ch : Char32) : Bool := ch ≤ 0x1F || ch == 0x7F

/-- `ground_char_kind`. -/
inductive GroundCharKind where
  | printable | esc | carriageReturn | lineFeed | tab | nul | backspace | sub | del | otherControl
deriving DecidableEq, Repr

/-- `csi_char_kind`. -/
inductive CsiCharKind where
  | control | digit | semicolon | privateMarker | intermediate | final | invalid
deriving DecidableEq, Repr

def classifyGroundChar (ch : Char32) : GroundCharKind :=
  if ch > 0x1F ∧ ch ≠ 0x7F then .printable
  else if ch = 0x00 then .nul
  else if ch = 0x08 then .backspace
  else if ch = 0x09 then .tab
  else if ch = 0x0A then .lineFeed
  else if ch = 0x0D then .carriageReturn
  else if ch = 0x1B then .esc
  else if ch = 0x1A then .sub
  else if ch = 0x7F then .del
  else .otherControl

def controlIdFromGroundKind : GroundCharKind → VtMessageId
  | .nul => .charNul
  | .backspace => .charDel
  | .del => .charDel
  | .sub => .charSub
  | .tab => .cursorForwardTab
  | .carriageReturn => .carriageReturn
  | .lineFeed => .lineFeed
  | _ => .text

def classifyCsiChar (ch : Char32) : CsiCharKind :=
  if isC0OrDel ch then .control
  else if 0x30 ≤ ch ∧ ch ≤ 0x39 then .digit
  else if ch = 0x3B then .semicolon
  else if ch = 0x3F then .privateMarker
  else if 0x20 ≤ ch ∧ ch ≤ 0x2F then .intermediate
  else if 0x40 ≤ ch ∧ ch ≤ 0x7E then .final
  else .invalid

/-! ## CSI parameters -/

namespace CsiParams

def addParam (c : CsiParams) : CsiParams :=
  let c :=
    if c.paramIndex < MAX_PARAMS then
      { c with params := c.params.set c.paramIndex c.currentParam, paramIndex := c.paramIndex + 1 }
    else { c with csiOverflow := true }
  { c with currentParam := 0, hasParam := false }

def getParam (c : CsiParams) (i : Nat) (d : Int := 0) : Int := if i < c.paramIndex then c.params.getD i 0 else d

/-- `_clamp`. -/
def clamp (v : Int) : Int := if v > 32767 then 32767 else v

def getPositiveParam (c : CsiParams) (i : Nat) (d : Int) : Int :=
  let value := c.getParam i d
  if value = 0 then d else clamp value

end CsiParams

/-- `static_cast<uint8_t>` of a `short`. -/
def u8OfShort (v : Int) : Nat := (v % 0x100).toNat

/-- An SGR parameter that takes no further parameters. -/
def VtSgrPayload.apply (m : VtSgrPayload) (v : Int) : VtSgrPayload :=
  if v = 0 then m.set .reset
  else if v = 1 then m.set .bold
  else if v = 2 then m.set .faint
  else if v = 3 then m.set .italic
  else if v = 4 then m.set .underline
  else if v = 5 then m.set .blink
  else if v = 7 then m.set .negative
  else if v = 8 then m.set .conceal
  else if v = 9 then m.set .strikethrough
  else if v = 22 then (m.clear .bold).clear .faint
  else if v = 23 then m.clear .italic
  else if v = 24 then m.clear .underline
  else if v = 25 then m.clear .blink
  else if v = 27 then m.clear .negative
  else if v = 28 then m.clear .conceal
  else if v = 29 then m.clear .strikethrough
  else if 30 ≤ v ∧ v ≤ 37 then { m with fg := .indexed (u8OfShort (v - 30)) }
  else if v = 39 then { m with fg := .default }
  else if 40 ≤ v ∧ v ≤ 47 then { m with bg := .indexed (u8OfShort (v - 40)) }
  else if v = 49 then { m with bg := .default }
  else if 90 ≤ v ∧ v ≤ 97 then { m with fg := .indexed (u8OfShort (v - 90 + 8)) }
  else if 100 ≤ v ∧ v ≤ 107 then { m with bg := .indexed (u8OfShort (v - 100 + 8)) }
  else m

def VtSgrPayload.setColor (m : VtSgrPayload) (v : Int) (color : VtSgrColor) : VtSgrPayload :=
  if v = 38 then { m with fg := color } else { m with bg := color }

/-- The loop over the SGR parameters. An incomplete extended colour makes the
whole sequence unknown. -/
def sgrParams (m : VtSgrPayload) : List Int → Option VtSgrPayload
  | [] => some m
  | v :: rest =>
    if v = 38 ∨ v = 48 then
      match rest with
      | [] => some m
      | kind :: args =>
        if kind = 5 then
          match args with
          | index :: rest => sgrParams (m.setColor v (.indexed (u8OfShort index))) rest
          | [] => none
        else if kind = 2 then
          match args with
          | r :: g :: b :: rest => sgrParams (m.setColor v (.rgb (u8OfShort r) (u8OfShort g) (u8OfShort b))) rest
          | _ => none
        else none
    else sgrParams (m.apply v) rest

/-! ## OSC payloads -/

def isDigit (ch : Char32) : Bool := 0x30 ≤ ch && ch ≤ 0x39

def isHexDigit (ch : Char32) : Bool :=
  isDigit ch || (0x41 ≤ ch && ch ≤ 0x46) || (0x61 ≤ ch && ch ≤ 0x66)

def hexValue (ch : Char32) : Nat :=
  if isDigit ch then ch - 0x30 else if 0x41 ≤ ch ∧ ch ≤ 0x46 then ch - 0x41 + 10 else ch - 0x61 + 10

/-- `_parse_osc_decimal_8`: the number and the characters after it.
`std::from_chars` yields 0 for a number out of the range of `short`. -/
def parseOscDecimal8 (s : List Char32) : Int × List Char32 :=
  let s := s.dropWhile (· == 0x20)
  let digits := (s.take 5).takeWhile isDigit
  let value := digits.foldl (fun (v : Nat) ch => v * 10 + (ch - 0x30)) 0
  (if value ≤ 32767 then (value : Int) else 0, s.drop digits.length)

/-- `_parse_osc_hex_8`: the component and the characters after it. -/
def parseOscHex8 (s : List Char32) : Nat × List Char32 :=
  let digits := (s.take 2).takeWhile isHexDigit
  if digits.isEmpty then (0, s)
  else (digits.foldl (fun v ch => v * 16 + hexValue ch) 0, (s.drop digits.length).dropWhile (· == 0x2F))

/-- Whether the string starts with `rgb:`, in any case. -/
def hasRgbPrefix : List Char32 → Bool
  | r :: g :: b :: colon :: _ =>
    (r == 0x72 || r == 0x52) && (g == 0x67 || g == 0x47) && (b == 0x62 || b == 0x42) && colon == 0x3A
  | _ => false

/-- The characters before the first terminator: BEL, or ESC followed by a backslash. -/
def untilTerminator : List Char32 → Option (List Char32)
  | [] => none
  | c :: cs =>
    if c = 0x07 ∨ (c = 0x1B ∧ cs.head? = some 0x5C) then some []
    else (untilTerminator cs).map (c :: ·)

/-! ## Dispatch -/

def dispatchEsc (code : Char32) : VtMessageId :=
  if code = 0x4D then .reverseIndex
  else if code = 0x37 then .saveCursor
  else if code = 0x38 then .restoreCursor
  else if code = 0x48 then .horizontalTabSet
  else if code = 0x3D then .keypadAppMode
  else if code = 0x3E then .keypadNumericMode
  else .continue_

def dispatchSs3 (code : Char32) : VtMessageId :=
  if code = 0x41 then .keyUp
  else if code = 0x42 then .keyDown
  else if code = 0x43 then .keyRight
  else if code = 0x44 then .keyLeft
  else if code = 0x48 then .keyHome
  else if code = 0x46 then .keyEnd
  else if code = 0x50 then .keyF1
  else if code = 0x51 then .keyF2
  else if code = 0x52 then .keyF3
  else if code = 0x53 then .keyF4
  else .continue_

def dispatchCharset (final : Char32) : VtMessageId :=
  if final = 0x30 then .designateCharsetLineDrawing
  else if final = 0x42 then .designateCharsetAscii
  else .continue_

/-- `_dispatch_osc` for the sequence `seq`, with the payload that is in `_msg` before the call. -/
def dispatchOsc (seq : List Char32) (payload : VtPayload) : VtMessageId × VtPayload :=
  match seq with
  | 0x1B :: 0x5D :: _ :: _ =>
    let body := seq.drop 2
    let digits := body.takeWhile isDigit
    let code := digits.foldl (fun code ch => i16 (code * 10 + Int.ofNat (ch - 0x30))) (0 : Int)
    match body.drop digits.length with
    | 0x3B :: rest =>
      match untilTerminator rest with
      | none => (.continue_, payload)
      | some s =>
        if code = 8 then (.osc8Hyperlink, .text [])
        else if code = 0 ∨ code = 2 then (.setWindowTitle, .title s)
        else if code = 4 then
          let (index, s) := parseOscDecimal8 s
          let s := if s.head? = some 0x3B then s.drop 1 else s
          if hasRgbPrefix s then
            let s := s.drop 4
            let (r, s₁) := parseOscHex8 s
            let (g, s₂) := parseOscHex8 s₁
            let (b, s₃) := parseOscHex8 s₂
            if s₃.length = s.length then (.unknownSequence, .text []) else (.setPaletteColor, .palette index r g b)
          else (.unknownSequence, .text [])
        else (.unknownSequence, .text [])
    | _ => (.continue_, payload)
  | _ => (.continue_, payload)

/-- DEC private modes: the message of `CSI ? p h` and of `CSI ? p l`. -/
def privateMode (set : Bool) (p : Int) : VtMessageId :=
  if p = 12 then if set then .cursorEnableBlinking else .cursorDisableBlinking
  else if p = 25 then if set then .cursorShow else .cursorHide
  else if p = 1 then if set then .cursorKeysAppMode else .cursorKeysNormalMode
  else if p = 3 then if set then .setColumns132 else .setColumns80
  else if p = 1049 then if set then .useAlternateBuffer else .useMainBuffer
  else .continue_

def keypadKey (p : Int) : VtMessageId :=
  if p = 2 then .keyInsert
  else if p = 3 then .keyDelete
  else if p = 5 then .keyPageUp
  else if p = 6 then .keyPageDown
  else if p = 15 then .keyF5
  else if p = 17 then .keyF6
  else if p = 18 then .keyF7
  else if p = 19 then .keyF8
  else if p = 20 then .keyF9
  else if p = 21 then .keyF10
  else if p = 23 then .keyF11
  else if p = 24 then .keyF12
  else .continue_

/-- `static_cast<unsigned short>` and `static_cast<wchar_t>` of a `short`. -/
def u16OfShort (v : Int) : Nat := (v % 0x10000).toNat

/-- `static_cast<unsigned long>` of a `short`. -/
def u32OfShort (v : Int) : Nat := (v % 0x100000000).toNat

def win32Key (c : CsiParams) : VtWin32KeyPayload :=
  let repeatCount := u16OfShort (CsiParams.clamp (c.getParam 5 1))
  { vk := u16OfShort (CsiParams.clamp (c.getParam 0 0))
    sc := u16OfShort (CsiParams.clamp (c.getParam 1 0))
    uc := u16OfShort (CsiParams.clamp (c.getParam 2 0))
    keyDown := c.getParam 3 0 != 0
    controlState := u32OfShort (CsiParams.clamp (c.getParam 4 0))
    repeatCount := if repeatCount = 0 then 1 else repeatCount }

/-- `_dispatch_csi`: the message, `continue_` when the sequence is not
supported, and the payload and key modifier it leaves in `_msg`. -/
def dispatchCsi (c : CsiParams) (terminator : Char32) (msg : VtMessage) : VtMessageId × VtMessage :=
  if c.csiOverflow then (.continue_, msg)
  else
    let priv := c.privateMarker
    let n := if c.paramIndex > 0 then c.getParam 0 1 else 1
    let n := if n = 0 then 1 else n
    let msg := { msg with keyModifier := if c.paramIndex > 1 then c.getParam 1 1 else 1 }
    let count (id : VtMessageId) : VtMessageId × VtMessage := (id, { msg with payload := .count (CsiParams.clamp n) })
    let only (ok : Bool) (r : VtMessageId × VtMessage) : VtMessageId × VtMessage := if ok then r else (.continue_, msg)
    if terminator = 0x41 then only (!priv) (count .cursorUp)
    else if terminator = 0x42 then only (!priv) (count .cursorDown)
    else if terminator = 0x43 then only (!priv) (count .cursorForward)
    else if terminator = 0x44 then only (!priv) (count .cursorBackward)
    else if terminator = 0x45 then only (!priv) (count .cursorNextLine)
    else if terminator = 0x46 then only (!priv) (count .cursorPrevLine)
    else if terminator = 0x47 then
      only (!priv) (.cursorHorizAbsolute, { msg with payload := .col (c.getPositiveParam 0 1) })
    else if terminator = 0x64 then
      only (!priv) (.cursorVertAbsolute, { msg with payload := .row (c.getPositiveParam 0 1) })
    else if terminator = 0x48 ∨ terminator = 0x66 then
      only (!priv) (.cursorPosition,
        { msg with payload := .position (c.getPositiveParam 0 1) (c.getPositiveParam 1 1) })
    else if terminator = 0x73 then only (!priv) (.ansiSaveCursor, msg)
    else if terminator = 0x75 then only (!priv) (.ansiRestoreCursor, msg)
    else if terminator = 0x68 then only priv (privateMode true (c.getParam 0), msg)
    else if terminator = 0x6C then only priv (privateMode false (c.getParam 0), msg)
    else if terminator = 0x53 then count .scrollUp
    else if terminator = 0x54 then count .scrollDown
    else if terminator = 0x74 then
      if c.getParam 0 = 8 then
        let rows := CsiParams.clamp (c.getParam 1)
        let cols := CsiParams.clamp (c.getParam 2)
        (if rows > 0 ∧ cols > 0 then .resizeWindow else .continue_, { msg with payload := .resize rows cols })
      else (.continue_, msg)
    else if terminator = 0x40 then count .insertCharacters
    else if terminator = 0x50 then count .deleteCharacters
    else if terminator = 0x58 then count .eraseCharacters
    else if terminator = 0x4C then count .insertLines
    else if terminator = 0x4D then count .deleteLines
    else if terminator = 0x4A then
      (.eraseInDisplay, { msg with payload := .eraseMode (CsiParams.clamp (c.getParam 0)) })
    else if terminator = 0x4B then
      (.eraseInLine, { msg with payload := .eraseMode (CsiParams.clamp (c.getParam 0)) })
    else if terminator = 0x6D then
      match sgrParams {} (c.params.take c.paramIndex) with
      | some m => (.sgr, { msg with payload := .sgr m })
      | none => (.continue_, msg)
    else if terminator = 0x71 then
      only (c.intermediate == 0x20)
        (.setCursorShape, { msg with payload := .cursorShape (CsiParams.clamp (c.getParam 0)) })
    else if terminator = 0x49 then count .cursorForwardTab
    else if terminator = 0x5A then count .cursorBackwardTab
    else if terminator = 0x67 then
      if c.getParam 0 = 0 then (.tabClearCurrent, msg)
      else if c.getParam 0 = 3 then (.tabClearAll, msg)
      else (.continue_, msg)
    else if terminator = 0x72 then
      (.setScrollingRegion,
        { msg with payload := .scrollRegion (CsiParams.clamp (c.getParam 0 1)) (CsiParams.clamp (c.getParam 1 0)) })
    else if terminator = 0x6E then only (c.getParam 0 == 6) (.reportCursorPosition, msg)
    else if terminator = 0x63 then (.deviceAttributes, msg)
    else if terminator = 0x52 then
      let row := CsiParams.clamp (c.getParam 0 1)
      let col := CsiParams.clamp (c.getParam 1 1)
      only (!priv) (if row > 0 ∧ col > 0 then .cprResponse else .continue_, { msg with payload := .cpr row col })
    else if terminator = 0x70 then only (c.intermediate == 0x21) (.softReset, msg)
    else if terminator = 0x5F then (.win32InputKey, { msg with payload := .win32Key (win32Key c) })
    else if terminator = 0x7E then (keypadKey (c.getParam 0), msg)
    else (.continue_, msg)

namespace VtParser

/-! ## Parsing -/

def rawSequence (p : VtParser) : List Char32 :=
  if p.raw.length ≤ p.seqStart ∨ p.raw.getD p.seqStart 0 ≠ 0x1B then [] else p.raw.drop p.seqStart

def makeResult (p : VtParser) (id : VtMessageId) (consumed : Nat) : VtParseResult :=
  if id = .continue_ then { id, consumed } else { id, consumed, rawSequence := p.rawSequence, message := p.msg }

def setUnknownSequence (p : VtParser) (start : Nat) : VtParser :=
  { p with msg := { p.msg with payload := .text (p.raw.drop start) } }

def finishSeq (p : VtParser) (id : VtMessageId) : VtMessageId × VtParser :=
  if id = .continue_ then (.unknownSequence, { p.setUnknownSequence p.seqStart with seqStart := 0 })
  else (id, { p with seqStart := 0 })

def parseOscEnd (p : VtParser) : VtMessageId × VtParser :=
  let (id, payload) := dispatchOsc (p.raw.drop p.seqStart) p.msg.payload
  finishSeq { p with msg := { p.msg with payload := payload }, mode := .ground } id

def parseOsc (p : VtParser) (ch : Char32) : VtMessageId × VtParser :=
  if isC0OrDel ch then
    if ch = 0x07 then p.parseOscEnd
    else if ch = 0x1B then (.continue_, { p with mode := .oscSt })
    else
      (.unknownSequence,
        { p.setUnknownSequence p.seqStart with
          mode := .ground, osc := { p.osc with oscCode := 0, oscLen := 0, oscHadSemi := false } })
  else if p.osc.oscHadSemi = false then
    if 0x30 ≤ ch ∧ ch ≤ 0x39 then
      (.continue_, { p with osc := { p.osc with oscCode := i16 (p.osc.oscCode * 10 + Int.ofNat (ch - 0x30)) } })
    else if ch = 0x3B then (.continue_, { p with osc := { p.osc with oscHadSemi := true } })
    else (.continue_, p)
  else if p.osc.oscCode ≠ 0 ∧ p.osc.oscCode ≠ 2 ∧ p.osc.oscLen < 31 ∧ ch < 0x80 then
    (.continue_,
      { p with osc := { p.osc with oscBuf := p.osc.oscBuf.set p.osc.oscLen ch, oscLen := p.osc.oscLen + 1 } })
  else (.continue_, p)

def parseCsi (p : VtParser) (ch : Char32) : VtMessageId × VtParser :=
  match classifyCsiChar ch with
  | .control => (.unknownSequence, { p.setUnknownSequence p.seqStart with mode := .ground, csi := {} })
  | .digit =>
    (.continue_,
      { p with csi := { p.csi with currentParam := i16 (p.csi.currentParam * 10 + Int.ofNat (ch - 0x30)), hasParam := true } })
  | .semicolon => (.continue_, { p with csi := p.csi.addParam })
  | .privateMarker => (.continue_, { p with csi := { p.csi with privateMarker := true } })
  | .intermediate => (.continue_, { p with csi := { p.csi with intermediate := ch } })
  | .final =>
    let (id, msg) := dispatchCsi p.csi.addParam ch p.msg
    finishSeq { p with msg := msg, mode := .ground, csi := {} } id
  | .invalid => (.unknownSequence, { p.setUnknownSequence p.seqStart with mode := .ground, csi := {} })

def parseSs3 (p : VtParser) (ch : Char32) : VtMessageId × VtParser :=
  if isC0OrDel ch then (.unknownSequence, { p.setUnknownSequence p.seqStart with mode := .ground })
  else if 0x40 ≤ ch ∧ ch ≤ 0x7E then finishSeq { p with mode := .ground } (dispatchSs3 ch)
  else (.unknownSequence, { p.setUnknownSequence p.seqStart with mode := .ground })

def parseEsc (p : VtParser) (ch : Char32) : VtMessageId × VtParser :=
  if isC0OrDel ch then (.unknownSequence, { p.setUnknownSequence p.seqStart with mode := .ground })
  else if ch = 0x5B then (.continue_, { p with mode := .csi, csi := {} })
  else if ch = 0x5D then
    (.continue_, { p with mode := .osc, osc := { p.osc with oscCode := 0, oscLen := 0, oscHadSemi := false } })
  else if ch = 0x4F then (.continue_, { p with mode := .ss3 })
  else if ch = 0x28 then (.continue_, { p with csi := { p.csi with intermediate := 0x28 } })
  else
    let p := { p with mode := .ground }
    if p.csi.intermediate = 0x28 then
      finishSeq { p with csi := { p.csi with intermediate := 0 } } (dispatchCharset ch)
    else if p.csi.intermediate ≠ 0 then
      (.unknownSequence, { p.setUnknownSequence p.seqStart with csi := { p.csi with intermediate := 0 } })
    else finishSeq p (dispatchEsc ch)

def parseOscSt (p : VtParser) (ch : Char32) : VtMessageId × VtParser :=
  if ch = 0x5C then p.parseOscEnd else { p with mode := .esc }.parseEsc ch

/-- `_parse_sequence_char`, which `parse` does not call in ground. -/
def parseSequenceChar (p : VtParser) (ch : Char32) : VtMessageId × VtParser :=
  let p := { p with raw := p.raw ++ [ch] }
  match p.mode with
  | .ground => (.continue_, p)
  | .esc => p.parseEsc ch
  | .csi => p.parseCsi ch
  | .osc => p.parseOsc ch
  | .oscSt => p.parseOscSt ch
  | .ss3 => p.parseSs3 ch

def parseGroundControl (p : VtParser) (ch : Char32) : VtMessageId × VtParser :=
  let kind := classifyGroundChar ch
  if kind = .esc then
    (.continue_, { p with raw := p.raw ++ [ch], seqStart := p.raw.length, mode := .esc })
  else
    let controlId := controlIdFromGroundKind kind
    if kind = .carriageReturn ∨ kind = .lineFeed then
      (controlId, { p with msg := { p.msg with payload := .text [] } })
    else if kind = .tab then (controlId, { p with msg := { p.msg with payload := .count 1 } })
    else
      let p := if kind = .backspace then { p with msg := { p.msg with keyModifier := 5 } } else p
      (controlId, { p with groundControlChar := ch, msg := { p.msg with payload := .text [ch] } })

/-- The loop of `parse` over the characters of a sequence; `i` of them have been consumed. -/
def parseLoop (p : VtParser) (i : Nat) : List Char32 → VtParseResult × VtParser
  | [] => ({ id := .continue_, consumed := i }, p)
  | ch :: input =>
    let (id, p) := p.parseSequenceChar ch
    if id ≠ .continue_ then (p.makeResult id (i + 1), p) else p.parseLoop (i + 1) input

def directGroundTextRunLength (text : List Char32) : Nat := (text.takeWhile fun ch => !isC0OrDel ch).length

def parse (p : VtParser) (input : List Char32) : VtParseResult × VtParser :=
  match input with
  | [] => ({}, p)
  | ch :: rest =>
    if p.mode = .ground then
      let textRun := directGroundTextRunLength input
      if textRun ≠ 0 then
        let p := { p with msg := { p.msg with payload := .text (input.take textRun) } }
        (p.makeResult .continueText textRun, p)
      else
        let (id, p) := p.parseGroundControl ch
        if id ≠ .continue_ then (p.makeResult id 1, p) else p.parseLoop 1 rest
    else p.parseLoop 0 input

def reset (p : VtParser) : VtParser := { p with msg := {}, raw := [], seqStart := 0, mode := .ground }

def inGround (p : VtParser) : Bool := p.mode == .ground

end VtParser

end Corehost
