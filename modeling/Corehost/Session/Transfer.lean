import Corehost.Lib.Span
import Corehost.Screen.LinearText
import Corehost.Session.Processes
import Mathlib.Data.UInt

/-!
# The screen transfers

The model of the four handlers that carry screen contents in a message
(`api_handlers.hpp`): ReadConsoleOutput, WriteConsoleOutput,
ReadConsoleOutputString and WriteConsoleOutputString. Offsets count from the
start of `io_msg::body`, where the header comes first, then the descriptor of
the call and then its data.

A `Transfer` is what a handler does with the message: the accesses to its input,
the elements it stores in the body and the size of the reply. What the handler
sends to the terminal is not part of it. A conversion of the operating system
is a field of `CodePages`. The code page 0 is `CP_ACP`.
-/

namespace Corehost

open Lib

/-- A `SHORT` rectangle of a request. -/
structure CharRegion where
  left : Int16
  top : Int16
  right : Int16
  bottom : Int16
deriving DecidableEq, Repr

def CharRegion.rect (r : CharRegion) : SmallRect := ⟨r.left.toInt, r.top.toInt, r.right.toInt, r.bottom.toInt⟩

/-- `CONSOLE_ASCII`, …: the values of `StringType`. -/
def CONSOLE_ASCII : UInt32 := 1
def CONSOLE_REAL_UNICODE : UInt32 := 2
def CONSOLE_ATTRIBUTE : UInt32 := 3
def CONSOLE_FALSE_UNICODE : UInt32 := 4

def IsStringType (t : UInt32) : Prop :=
  t = CONSOLE_ASCII ∨ t = CONSOLE_REAL_UNICODE ∨ t = CONSOLE_FALSE_UNICODE ∨ t = CONSOLE_ATTRIBUTE

instance (t : UInt32) : Decidable (IsStringType t) := inferInstanceAs (Decidable (_ ∨ _))

/-- `sizeof` of the descriptors with a rectangle and of those with a string type. -/
def REGION_MSG : Nat := 10
def STRING_MSG : Nat := 12

/-- `sizeof(CHAR_INFO)`, and of a `WORD` or `wchar_t`. -/
def CHAR_INFO_SIZE : Nat := 4
def WORD_SIZE : Nat := 2

/-- The conversions. `wideCharToMultiByte cp text n` are the bytes that
WideCharToMultiByte stores in a buffer of `n` bytes, none when it fails; it
never stores more than `n`. -/
structure CodePages where
  wideCharToMultiByte : UInt32 → List Nat → Int → List UInt8
  length_wideCharToMultiByte : ∀ cp text n, (wideCharToMultiByte cp text n).length ≤ n.toNat
  /-- The character that MultiByteToWideChar makes of one byte or of two. -/
  multiByteToWideChar : UInt32 → List UInt8 → Nat
  isDBCSLeadByteEx : UInt32 → UInt8 → Bool
  /-- `convert_ansi_to_u32` and `convert_utf16_to_u32`. -/
  convertAnsiToU32 : UInt32 → List UInt8 → List Char32
  convertUtf16ToU32 : List Nat → List Char32
  /-- `u32_to_ansi_exact_len`. -/
  u32ToAnsiExactLen : UInt32 → List Char32 → Nat

/-- `u32_to_wide_exact_len`. -/
def u32ToWideExactLen (text : List Char32) : Nat := (text.map fun cp : Nat => if cp > 0xFFFF then 2 else 1).sum

/-! ## What a handler does -/

/-- A reading access to an object of `limit` bytes. -/
structure Access where
  span : Span
  limit : Nat
deriving DecidableEq, Repr

def Access.Within (a : Access) : Prop := a.span.Within 0 a.limit

/-- Elements stored in the message body one after the other. -/
structure Store where
  first : Int
  elementSize : Nat
  values : List Nat
deriving DecidableEq, Repr

def Store.span (s : Store) : Span := ⟨s.first, s.elementSize * s.values.length⟩

inductive ReplyStatus where
  | success
  | invalidParameter
deriving DecidableEq, Repr

/-- `information` is the number of bytes of the reply, which starts with the
descriptor; `numRecords` and `region` are fields of the descriptor. -/
structure Transfer where
  status : ReplyStatus := .success
  information : Nat := 0
  numRecords : Nat := 0
  region : SmallRect := ⟨0, 0, 0, 0⟩
  reads : List Access := []
  stores : List Store := []
  screen : ScreenBuffer
deriving DecidableEq, Repr

/-- `prepare_completion(msg, status_invalid_parameter)`. -/
def Transfer.refused (sb : ScreenBuffer) : Transfer := { status := .invalidParameter, screen := sb }

/-- What the memory holds at an offset from `msg.body`. -/
abbrev Memory := Int → UInt8

def Memory.bytes (m : Memory) (at_ : Int) (n : Nat) : List UInt8 := (List.range n).map fun (k : Nat) => m (at_ + k)

def Memory.word (m : Memory) (at_ : Int) : Nat := (m at_).toNat + 256 * (m (at_ + 1)).toNat

def Memory.words (m : Memory) (at_ : Int) (n : Nat) : List Nat := (List.range n).map fun (k : Nat) => m.word (at_ + 2 * k)

def Memory.cells (m : Memory) (at_ : Int) (n : Nat) : List CharInfo :=
  (List.range n).map fun (k : Nat) => ⟨m.word (at_ + 4 * k), (m.word (at_ + 4 * k + 2)).toUInt16⟩

/-- A `CHAR_INFO` as one number. -/
def CharInfo.value (ci : CharInfo) : Nat := ci.wchar + 0x10000 * ci.attributes.toNat

/-! ## The string handlers -/

structure StringRequest where
  inputSize : UInt32
  outputSize : UInt32
  x : Int16
  y : Int16
  stringType : UInt32
deriving DecidableEq, Repr

def StringRequest.coord (q : StringRequest) : Coord := ⟨q.x.toInt, q.y.toInt⟩

/-- `data_capacity` of a handler whose descriptor has `apiSize` bytes. -/
def dataCapacity (outputSize apiSize : Nat) : Nat := if outputSize > apiSize then outputSize - apiSize else 0

/-- Elements read from the screen, and zeros up to `maxn` elements. -/
def storeWithZeros (first : Int) (elementSize : Nat) (values : List Nat) (maxn : Nat) : List Store :=
  [⟨first, elementSize, values⟩,
    ⟨first + elementSize * values.length, elementSize, List.replicate (maxn - values.length) 0⟩]

def apiReadOutputString (cps : CodePages) (outputCodePage : UInt32) (sb : ScreenBuffer) (q : StringRequest) : Transfer :=
  if q.inputSize.toNat < MSG_HEADER + STRING_MSG then .refused sb
  else if ¬ IsStringType q.stringType then .refused sb
  else
    let capacity := dataCapacity q.outputSize.toNat STRING_MSG
    let first : Int := MSG_HEADER + STRING_MSG
    let done (values : List Nat) (elementSize maxn : Nat) : Transfer :=
      { information := STRING_MSG + capacity
        numRecords := values.length
        stores := storeWithZeros first elementSize values maxn
        screen := sb }
    if q.stringType = CONSOLE_ATTRIBUTE then
      done (sb.readAttrsLinear q.coord (capacity / WORD_SIZE)) WORD_SIZE (capacity / WORD_SIZE)
    else if q.stringType = CONSOLE_ASCII then
      let wide := sb.readWcharsLinear q.coord capacity
      let bytes := cps.wideCharToMultiByte outputCodePage wide ((capacity : Int).bmod (2 ^ 32))
      done (bytes.map UInt8.toNat) 1 capacity
    else done (sb.readWcharsLinear q.coord (capacity / WORD_SIZE)) WORD_SIZE (capacity / WORD_SIZE)

def apiWriteOutputString (cps : CodePages) (cw : Char32 → Int) (outputCodePage : UInt32) (sb : ScreenBuffer) (m : Memory)
    (q : StringRequest) : Transfer :=
  if q.inputSize.toNat < MSG_HEADER + STRING_MSG then .refused sb
  else if ¬ IsStringType q.stringType then .refused sb
  else
    let ib := q.inputSize.toNat - MSG_HEADER - STRING_MSG
    let first : Int := MSG_HEADER + STRING_MSG
    let done (size numRecords : Nat) (sb : ScreenBuffer) : Transfer :=
      { information := STRING_MSG
        numRecords := numRecords
        reads := [⟨⟨first, size⟩, q.inputSize.toNat⟩]
        screen := sb }
    if q.stringType = CONSOLE_ATTRIBUTE then
      let (n, sb) := sb.writeAttrSeqLinear q.coord (m.words first (ib / WORD_SIZE))
      done (WORD_SIZE * (ib / WORD_SIZE)) n sb
    else if q.stringType = CONSOLE_ASCII then
      let text := cps.convertAnsiToU32 outputCodePage (m.bytes first ib)
      let (n, sb) := sb.writeChar32Linear cw q.coord text
      done ib (cps.u32ToAnsiExactLen outputCodePage (text.take n)) sb
    else
      let text := cps.convertUtf16ToU32 (m.words first (ib / WORD_SIZE))
      let (n, sb) := sb.writeChar32Linear cw q.coord text
      done (WORD_SIZE * (ib / WORD_SIZE)) (u32ToWideExactLen (text.take n)) sb

/-! ## The rectangle handlers -/

structure RegionRequest where
  inputSize : UInt32
  outputSize : UInt32
  charRegion : CharRegion
  unicode : Bool
deriving DecidableEq, Repr

/-- `SHORT w` and `int h`, and the size of the rectangle in bytes. -/
def regionWidth (r : SmallRect) : Int := i16 (r.right - r.left + 1)
def regionHeight (r : SmallRect) : Int := r.bottom - r.top + 1
def regionBytes (r : SmallRect) : Nat :=
  (sizeT (regionWidth r) * sizeT (regionHeight r) * CHAR_INFO_SIZE) % 2 ^ 64

/-- The loop over the rows of a clipped rectangle. -/
def regionRows (r : SmallRect) : List Int := (List.range (r.bottom - r.top + 1).toNat).map fun (k : Nat) => r.top + k

def regionColumns (r : SmallRect) : Nat := (r.right - r.left + 1).toNat

/-- The cells of a row of the clipped rectangle, in an array of rows of the whole rectangle. -/
def regionRowSpan (base : Int) (orig clipped : SmallRect) (y : Int) : Span :=
  rowSpan base CHAR_INFO_SIZE (regionWidth orig) (clipped.left - orig.left) (y - orig.top) (regionColumns clipped)

/-- The reply that only gives back the rectangle. -/
def Transfer.onlyRegion (rect : SmallRect) (sb : ScreenBuffer) : Transfer :=
  { information := REGION_MSG, region := rect, screen := sb }

/-- The byte and the attributes of each cell of a row, for a client that reads bytes. -/
def exportAnsi (cps : CodePages) (cp : UInt32) : List CharInfo → List (UInt8 × UInt16)
  | [] => []
  | src :: rest =>
    let bytes := cps.wideCharToMultiByte cp [src.wchar] 8
    if src.attributes &&& COMMON_LVB_TRAILING_BYTE ≠ 0 then
      (src.wchar.toUInt8, src.attributes) :: exportAnsi cps cp rest
    else if src.attributes &&& COMMON_LVB_LEADING_BYTE ≠ 0 then
      match rest with
      | [] => [(0x20, src.attributes &&& ~~~COMMON_LVB_SBCSDBCS)]
      | trail :: rest =>
        let fits := bytes.length = 1 ∨ bytes.length = 2
        (if fits then bytes.getD 0 0 else 0, src.attributes) ::
          (if fits then bytes.getD 1 0 else 0, trail.attributes) :: exportAnsi cps cp rest
    else (if bytes.length = 1 then bytes.getD 0 0 else 0, src.attributes) :: exportAnsi cps cp rest

/-- Cells with bytes, from `first` on. The second byte of each is not stored. -/
def storeAnsi (first : Int) : List (UInt8 × UInt16) → List Store
  | [] => []
  | (ch, attributes) :: rest =>
    ⟨first, 1, [ch.toNat]⟩ :: ⟨first + WORD_SIZE, WORD_SIZE, [attributes.toNat]⟩ :: storeAnsi (first + CHAR_INFO_SIZE) rest

/-- The cells of row `y` that are in the clipped rectangle, where their place in the reply is. -/
def exportRow (cps : CodePages) (cp : UInt32) (sb : ScreenBuffer) (unicode : Bool) (orig clipped : SmallRect) (y : Int) :
    List Store :=
  let tmp := (sb.row y).toCharInfo
  let cells := (List.range (regionColumns clipped)).map fun (k : Nat) => tmp.getD (clipped.left.toNat + k) ⟨0, 0⟩
  let dst := (regionRowSpan (MSG_HEADER + REGION_MSG) orig clipped y).first
  if unicode then [⟨dst, CHAR_INFO_SIZE, cells.map CharInfo.value⟩] else storeAnsi dst (exportAnsi cps cp cells)

def apiReadConsoleOutput (cps : CodePages) (outputCodePage : UInt32) (sb : ScreenBuffer) (q : RegionRequest) : Transfer :=
  let orig := q.charRegion.rect
  if q.inputSize.toNat < MSG_HEADER + REGION_MSG then .refused sb
  else if orig.left > orig.right ∨ orig.top > orig.bottom then .onlyRegion ⟨0, 0, 0, 0⟩ sb
  else
    let capacity := dataCapacity q.outputSize.toNat REGION_MSG
    if regionBytes orig > capacity then .refused sb
    else
      let clipped := sb.clampRect orig
      if clipped.left > clipped.right ∨ clipped.top > clipped.bottom then
        { information := REGION_MSG + capacity, screen := sb }
      else
        { information := REGION_MSG + capacity
          region := clipped
          stores := (regionRows clipped).flatMap (exportRow cps outputCodePage sb q.unicode orig clipped)
          screen := sb }

/-- One row of cells with bytes, as cells with characters. -/
def importAnsi (cps : CodePages) (cp : UInt32) : List CharInfo → List CharInfo
  | [] => []
  | [ci] =>
    [⟨cps.multiByteToWideChar cp [ci.wchar.toUInt8], ci.attributes &&& ~~~COMMON_LVB_SBCSDBCS⟩]
  | ci :: trail :: rest =>
    let attributes := ci.attributes &&& ~~~COMMON_LVB_SBCSDBCS
    if cps.isDBCSLeadByteEx cp ci.wchar.toUInt8 then
      let wc := cps.multiByteToWideChar cp [ci.wchar.toUInt8, trail.wchar.toUInt8]
      ⟨wc, attributes ||| COMMON_LVB_LEADING_BYTE⟩ ::
        ⟨wc, (trail.attributes &&& ~~~COMMON_LVB_SBCSDBCS) ||| COMMON_LVB_TRAILING_BYTE⟩ :: importAnsi cps cp rest
    else ⟨cps.multiByteToWideChar cp [ci.wchar.toUInt8], attributes⟩ :: importAnsi cps cp (trail :: rest)

/-- The cells that WriteConsoleOutput takes its rows from: the accesses that
make them, where a row is in them and how many bytes they have. With Unicode
they are the data of the message, else a converted copy of its cells. -/
def importSource (q : RegionRequest) (cellCount : Nat) : List Access × Int × Nat :=
  if q.unicode then ([], MSG_HEADER + REGION_MSG, q.inputSize.toNat)
  else ([⟨⟨MSG_HEADER + REGION_MSG, CHAR_INFO_SIZE * cellCount⟩, q.inputSize.toNat⟩], 0, CHAR_INFO_SIZE * cellCount)

/-- The cells of the message for row `y` of the clipped rectangle. Of a rectangle
whose width is 0 no cell is converted, and what the memory behind the copy holds
is left out. -/
def importRow (cps : CodePages) (cp : UInt32) (m : Memory) (unicode : Bool) (orig clipped : SmallRect) (y : Int) :
    List CharInfo :=
  let data : Int := MSG_HEADER + REGION_MSG
  if unicode then m.cells (regionRowSpan data orig clipped y).first (regionColumns clipped)
  else
    let cells := m.cells (data + CHAR_INFO_SIZE * ((y - orig.top) * regionWidth orig)) (regionWidth orig).toNat
    ((importAnsi cps cp cells).drop (clipped.left - orig.left).toNat).take (regionColumns clipped)

def apiWriteConsoleOutput (cps : CodePages) (outputCodePage : UInt32) (sb : ScreenBuffer) (m : Memory)
    (q : RegionRequest) : Transfer :=
  let orig := q.charRegion.rect
  if q.inputSize.toNat < MSG_HEADER + REGION_MSG then .refused sb
  else if orig.left > orig.right ∨ orig.top > orig.bottom then .onlyRegion ⟨0, 0, 0, 0⟩ sb
  else
    let inputBytes := q.inputSize.toNat - MSG_HEADER - REGION_MSG
    if inputBytes < regionBytes orig then .refused sb
    else
      let cellCount := (sizeT (regionWidth orig) * sizeT (regionHeight orig)) % 2 ^ 64
      let (conversion, base, limit) := importSource q cellCount
      let clipped := sb.clampRect orig
      if clipped.left > clipped.right ∨ clipped.top > clipped.bottom then
        { information := REGION_MSG, reads := conversion, screen := sb }
      else
        { information := REGION_MSG
          region := clipped
          reads := conversion ++ (regionRows clipped).map fun y => ⟨regionRowSpan base orig clipped y, limit⟩
          screen := (regionRows clipped).foldl (fun sb y =>
            sb.modifyRow y fun r => r.fromCharInfo (importRow cps outputCodePage m q.unicode orig clipped y) (u16 clipped.left.toNat)) sb }

end Corehost
