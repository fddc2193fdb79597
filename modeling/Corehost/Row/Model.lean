import Corehost.Lib.Cpp
import Mathlib.Data.UInt

/-!
# A row of the screen buffer

The model of `screen_buffer_row` (`screen_buffer_row.hpp`), in the order of the
source. A row stores the characters of its glyphs in `text`, for each column
the offset of its glyph in `columns`, and for each column an attribute in
`attrs`. Three flags replace one or more of them: `filled`,
`singleWidthLayout` and `attrsUniform`.

`uint16_t` values are natural numbers, with `u16` where the source converts to
`uint16_t`. A `std::u32string_view` is a list.
-/

namespace Corehost

open Lib

/-- A `char32_t`. -/
abbrev Char32 := Nat

/-- `COMMON_LVB_LEADING_BYTE`, `COMMON_LVB_TRAILING_BYTE` and both of them. -/
def COMMON_LVB_LEADING_BYTE : UInt16 := 0x0100
def COMMON_LVB_TRAILING_BYTE : UInt16 := 0x0200
def COMMON_LVB_SBCSDBCS : UInt16 := 0x0300

structure TextAttribute where
  legacy : UInt16 := 0x07
deriving DecidableEq, Repr

/-- The explicit constructor of `text_attribute`. -/
def TextAttribute.ofWord (attr : UInt16) : TextAttribute := ⟨attr &&& ~~~COMMON_LVB_SBCSDBCS⟩

/-- A `CHAR_INFO`: `wchar` is a UTF-16 code unit. -/
structure CharInfo where
  wchar : Nat
  attributes : UInt16
deriving DecidableEq, Repr

def TRAILING_FLAG : Nat := 0x8000
def OFFSET_MASK : Nat := 0x7FFF

structure ScreenBufferRow where
  text : List Char32 := []
  columns : List Nat := []
  attrs : List TextAttribute := []
  singleWidthLayout : Bool := false
  filled : Bool := false
  fillChar : Char32 := 0x20
  fillAttr : TextAttribute := {}
  attrsUniform : Bool := false
  uniformAttr : TextAttribute := {}
deriving DecidableEq, Repr

namespace ScreenBufferRow

def resetFill (r : ScreenBufferRow) (width : Nat) (cp : Char32) (attr : TextAttribute) : ScreenBufferRow :=
  { r with
    columns := resize r.columns (width + 1) 0
    attrs := resize r.attrs width {}
    fillChar := cp
    fillAttr := attr
    filled := true
    singleWidthLayout := true
    attrsUniform := true
    uniformAttr := attr }

/-- The constructor `screen_buffer_row(width, default_attr)`. -/
def ofWidth (width : Nat) (defaultAttr : UInt16 := 0x07) : ScreenBufferRow :=
  resetFill {} width 0x20 (.ofWord defaultAttr)

def width (r : ScreenBufferRow) : Nat := if r.columns.isEmpty then 0 else u16 (r.columns.length - 1)

/-! ## Reading -/

def colOffset (r : ScreenBufferRow) (col : Nat) : Nat :=
  if r.filled then if col ≤ r.width then col else 0
  else if r.singleWidthLayout then if col ≤ r.width then col else 0
  else if col < r.columns.length then r.columns.getD col 0 &&& OFFSET_MASK else 0

def isTrailing (r : ScreenBufferRow) (col : Nat) : Bool :=
  if r.filled || r.singleWidthLayout then false
  else col < r.columns.length && r.columns.getD col 0 &&& TRAILING_FLAG != 0

/-- `while (col < end && is_trailing(col)) ++col`, at most `n` times. -/
def skipTrailing (r : ScreenBufferRow) (col : Nat) : Nat → Nat
  | 0 => col
  | n + 1 => if col < r.width && r.isTrailing col then r.skipTrailing (col + 1) n else col

def glyphAt (r : ScreenBufferRow) (col : Nat) : List Char32 :=
  if r.width ≤ col then []
  else if r.filled then [r.fillChar]
  else if r.singleWidthLayout then if col < r.text.length then (r.text.drop col).take 1 else []
  else
    let start := r.colOffset col
    let endCol := r.skipTrailing (col + 1) (r.width - col)
    let stop := r.colOffset endCol
    let stop := if r.text.length < stop then u16 r.text.length else stop
    if stop ≤ start then [] else (r.text.drop start).take (stop - start)

def glyphWidth (r : ScreenBufferRow) (col : Nat) : Nat :=
  if r.width ≤ col then 0
  else if r.filled || r.singleWidthLayout then 1
  else if r.isTrailing col then 0
  else r.skipTrailing (col + 1) (r.width - col) - col

def attrAt (r : ScreenBufferRow) (col : Nat) : TextAttribute :=
  if r.attrsUniform && col < r.width then r.uniformAttr
  else if col < r.attrs.length then r.attrs.getD col {} else {}

/-! ## Private helpers -/

def materializeFilled (r : ScreenBufferRow) : ScreenBufferRow :=
  if r.filled then
    { r with
      text := List.replicate r.width r.fillChar
      attrsUniform := true
      uniformAttr := r.fillAttr
      filled := false
      singleWidthLayout := true }
  else r

def materializeColumnsFromSingleWidthLayout (r : ScreenBufferRow) : ScreenBufferRow :=
  if r.singleWidthLayout then
    { r with columns := iota r.columns 0 r.columns.length 0, singleWidthLayout := false }
  else r

def materializeAttrs (r : ScreenBufferRow) : ScreenBufferRow :=
  if r.attrsUniform then
    { r with attrs := fillRange r.attrs 0 r.attrs.length r.uniformAttr, attrsUniform := false }
  else r

def writeAttrRange (r : ScreenBufferRow) (start endExcl : Nat) (attr : TextAttribute) : ScreenBufferRow :=
  if start = 0 ∧ r.width ≤ endExcl then { r with attrsUniform := true, uniformAttr := attr }
  else if r.attrsUniform ∧ attr = r.uniformAttr then r
  else
    let r := r.materializeAttrs
    if r.attrs.length ≤ start then r
    else { r with attrs := fillRange r.attrs start (min endExcl r.attrs.length) attr }

/-- One entry of `_shift_columns_from`: the offset moves by `delta`, the flag stays. -/
def shiftEntry (delta : Int) (off : Nat) : Nat :=
  (off &&& TRAILING_FLAG) ||| ((((off &&& OFFSET_MASK : Nat) : Int) + delta) % 0x10000).toNat

def shiftColumnsFrom (r : ScreenBufferRow) (start : Nat) (delta : Int) : ScreenBufferRow :=
  { r with columns := r.columns.take start ++ (r.columns.drop start).map (shiftEntry delta) }

/-- `while (lead > 0 && is_trailing(lead)) --lead`. -/
def leadOf (r : ScreenBufferRow) : Nat → Nat
  | 0 => 0
  | c + 1 => if r.isTrailing (c + 1) then r.leadOf c else c + 1

def blankGlyphCutAt (r : ScreenBufferRow) (col : Nat) : ScreenBufferRow :=
  if r.width ≤ col ∨ r.isTrailing col = false then r
  else
    let lead := r.leadOf col
    let stopCol := r.skipTrailing (col + 1) (r.width - col)
    let start := r.colOffset lead
    let stop := r.colOffset stopCol
    let cols := u16 (stopCol - lead)
    let text := replace r.text start (sizeT ((stop : Int) - start)) (List.replicate cols 0x20)
    let columns := setRange r.columns lead ((List.range (stopCol - lead)).map fun k => u16 (start + k))
    { r with text := text, columns := columns }.shiftColumnsFrom stopCol (i16 ((cols : Int) - ((stop : Int) - start)))

/-! ## Attributes -/

def setAttr (r : ScreenBufferRow) (col : Nat) (a : TextAttribute) : ScreenBufferRow :=
  let r := r.materializeFilled.materializeAttrs
  if col < r.attrs.length then { r with attrs := r.attrs.set col a } else r

def fillAttrs (r : ScreenBufferRow) (start endExcl : Nat) (a : TextAttribute) : ScreenBufferRow :=
  let r := r.materializeFilled
  if start = 0 ∧ r.width ≤ endExcl then { r with attrsUniform := true, uniformAttr := a }
  else
    let r := r.materializeAttrs
    if r.attrs.length ≤ start then r
    else { r with attrs := fillRange r.attrs start (min endExcl r.attrs.length) a }

/-! ## Writing -/

/-- Whether `cell` shows a glyph of one column and one character. -/
def isSimpleCell (r : ScreenBufferRow) (cell : Nat) : Bool :=
  let next := u16 (cell + 1)
  !r.isTrailing cell && !(next < r.width && r.isTrailing next) && r.colOffset next == r.colOffset cell + 1 &&
    r.colOffset cell < r.text.length

/-- Whether the run was written, and the row after the call: `materialize_filled`
runs in any case. -/
def tryWriteSingleWidthRun (r : ScreenBufferRow) (col : Nat) (text : List Char32) (attr : TextAttribute) :
    Bool × ScreenBufferRow :=
  let r := r.materializeFilled
  if text.isEmpty then (true, r)
  else if r.width ≤ col ∨ r.width - col < text.length then (false, r)
  else if r.singleWidthLayout then
    (true, { r with text := setRange r.text col text }.writeAttrRange col (u16 (col + text.length)) attr)
  else
    let count := u16 text.length
    if (List.range count).all fun i => r.isSimpleCell (u16 (col + i)) then
      let written := (text.zipIdx).foldl (fun t p => t.set (r.colOffset (u16 (col + p.2))) p.1) r.text
      (true, { r with text := written }.writeAttrRange col (u16 (col + count)) attr)
    else (false, r)

/-- The slow path of `write_glyph`: `_text` is spliced and `_columns` shifted. -/
def spliceGlyph (r : ScreenBufferRow) (col : Nat) (text : List Char32) (widthColumns : Nat)
    (attr : TextAttribute) : ScreenBufferRow :=
  let r : ScreenBufferRow := { r with singleWidthLayout := false }
  let endCol := u16 (col + widthColumns)
  let r := (r.blankGlyphCutAt col).blankGlyphCutAt endCol
  let oldStart := r.colOffset col
  let oldEnd := r.colOffset endCol
  let newLen := u16 text.length
  let r' := { r with text := replace r.text oldStart (sizeT ((oldEnd : Int) - oldStart)) (text.take newLen) }
  let delta : Int := i16 (newLen : Int) - i16 ((oldEnd : Int) - (oldStart : Int))
  let entries := oldStart :: List.replicate (endCol - (col + 1)) (oldStart ||| TRAILING_FLAG)
  let r' := { r' with columns := setRange r'.columns col entries }.shiftColumnsFrom endCol (i16 delta)
  (List.range' col (endCol - col)).foldl (fun r c => r.setAttr c attr) r'

def writeGlyph (r : ScreenBufferRow) (col : Nat) (text : List Char32) (widthColumns : Int)
    (attr : TextAttribute) : ScreenBufferRow :=
  if r.width ≤ col ∨ widthColumns ≤ 0 then r
  else
    let widthColumns := (min widthColumns ((r.width : Int) - col)).toNat
    let r := r.materializeFilled
    if r.singleWidthLayout ∧ widthColumns = 1 ∧ text.length = 1 then
      { r with text := r.text.set col (text.headD 0) }.writeAttrRange col (u16 (col + 1)) attr
    else
      let r := r.materializeColumnsFromSingleWidthLayout
      let nextCol := u16 (col + 1)
      if widthColumns = 1 ∧ text.length = 1 ∧ r.isTrailing col = false ∧ nextCol ≤ r.width ∧
          (nextCol = r.width ∨ r.isTrailing nextCol = false) ∧
          r.colOffset nextCol = r.colOffset col + 1 ∧ r.colOffset col < r.text.length then
        { r with text := r.text.set (r.colOffset col) (text.headD 0) }.setAttr col attr
      else r.spliceGlyph col text widthColumns attr

/-- The loop that writes the columns of measured text: `cell` and `textOffset`
are its counters. -/
def placeColumns (columns : List Nat) (cell textOffset : Nat) : List Nat → List Nat
  | [] => columns
  | w :: widths =>
    let columns := columns.set cell textOffset
    let columns := (List.range' 1 (w - 1)).foldl (fun cs k => cs.set (u16 (cell + k)) (textOffset ||| TRAILING_FLAG)) columns
    placeColumns columns (u16 (cell + w)) (u16 (textOffset + 1)) widths

/-- The loop of `try_overwrite_matching_measured_run` that compares the layout
of the row with the one of the text. The result is the column it ends at. -/
def matchesLayout (r : ScreenBufferRow) (oldStart : Nat) (cell i : Nat) : List Nat → Option Nat
  | [] => some cell
  | w :: widths =>
    if r.width ≤ cell ∨ r.isTrailing cell ∨ r.colOffset cell ≠ oldStart + i then none
    else if w = 0 ∨ r.width < cell + w then none
    else if (List.range' 1 (w - 1)).all fun k =>
        r.isTrailing (u16 (cell + k)) && r.colOffset (u16 (cell + k)) == oldStart + i then
      r.matchesLayout oldStart (u16 (cell + w)) (i + 1) widths
    else none

def tryOverwriteMatchingMeasuredRun (r : ScreenBufferRow) (col : Nat) (text : List Char32) (widths : List Nat)
    (totalColumns : Nat) (attr : TextAttribute) : Option ScreenBufferRow :=
  let endCol := u16 (col + totalColumns)
  if r.filled then none
  else if text.isEmpty ∨ r.width ≤ col ∨ r.width < endCol ∨ r.isTrailing col then none
  else
    let oldStart := r.colOffset col
    if r.text.length < oldStart + text.length then none
    else
      match r.matchesLayout oldStart col 0 widths with
      | none => none
      | some cell =>
        if cell ≠ endCol ∨ r.colOffset endCol ≠ oldStart + text.length then none
        else some ({ r with text := setRange r.text oldStart text }.writeAttrRange col endCol attr)

def tryWriteMeasuredRunOnFilledRow (r : ScreenBufferRow) (col : Nat) (text : List Char32) (widths : List Nat)
    (totalColumns : Nat) (allSingleWidth : Bool) (attr : TextAttribute) : Option ScreenBufferRow :=
  let rowWidth := r.width
  let endCol := u16 (col + totalColumns)
  if r.filled = false ∨ text.isEmpty ∨ rowWidth ≤ col ∨ rowWidth < endCol then none
  else
    let newText := List.replicate col r.fillChar ++ text ++ List.replicate (rowWidth - endCol) r.fillChar
    let columns :=
      if allSingleWidth then iota r.columns 0 r.columns.length 0
      else
        let columns := iota r.columns 0 col 0
        let columns := placeColumns columns col col widths
        iota columns endCol (rowWidth + 1) (u16 (col + text.length))
    let r := { r with text := newText, columns := columns, attrsUniform := true, uniformAttr := r.fillAttr }
    some { r.writeAttrRange col endCol attr with filled := false, singleWidthLayout := allSingleWidth }

def tryWriteMeasuredRunOnSingleWidthLayout (r : ScreenBufferRow) (col : Nat) (text : List Char32)
    (widths : List Nat) (totalColumns : Nat) (attr : TextAttribute) : Option ScreenBufferRow :=
  let rowWidth := r.width
  let endCol := u16 (col + totalColumns)
  if text.isEmpty ∨ rowWidth ≤ col ∨ rowWidth < endCol ∨ text.length ≠ widths.length then none
  else if r.filled ∨ r.singleWidthLayout = false then none
  else
    let columns := iota r.columns 0 r.columns.length 0
    let newText := replace r.text col totalColumns text
    let columns := placeColumns columns col col widths
    let columns := iota columns endCol (rowWidth + 1) (u16 (col + text.length))
    some { { r with text := newText, columns := columns }.writeAttrRange col endCol attr with
      singleWidthLayout := false }

/-- The path of `write_measured_run` that replaces the whole row. -/
def writeFullRow (r : ScreenBufferRow) (text : List Char32) (widths : List Nat) (allSingleWidth : Bool)
    (attr : TextAttribute) : ScreenBufferRow :=
  let columns :=
    if allSingleWidth then r.columns
    else (placeColumns r.columns 0 0 widths).set r.width (u16 text.length)
  { r with
    filled := false
    text := text
    columns := columns
    attrsUniform := true
    uniformAttr := attr
    singleWidthLayout := allSingleWidth }

/-- The last path of `write_measured_run`: `_text` is spliced and `_columns` rebuilt. -/
def spliceMeasuredRun (r : ScreenBufferRow) (col : Nat) (text : List Char32) (widths : List Nat)
    (totalColumns : Nat) (attr : TextAttribute) : ScreenBufferRow :=
  let endCol := u16 (col + totalColumns)
  let r := (r.blankGlyphCutAt col).blankGlyphCutAt endCol
  let oldStart := r.colOffset col
  let oldEnd := r.colOffset endCol
  let oldLen := u16 (if oldStart ≤ oldEnd then oldEnd - oldStart else 0)
  let newLen := u16 text.length
  let r' := { r with text := replace r.text oldStart oldLen (text.take newLen) }
  let r' := r'.shiftColumnsFrom endCol (i16 (i16 (newLen : Int) - i16 (oldLen : Int)))
  let r' := { r' with columns := placeColumns r'.columns col oldStart widths }
  let r' := r'.writeAttrRange col endCol attr
  { r' with columns := r'.columns.set r'.width (u16 r'.text.length), singleWidthLayout := false }

def writeMeasuredRun (r : ScreenBufferRow) (col : Nat) (text : List Char32) (widths : List Nat)
    (totalColumns : Nat) (allSingleWidth : Bool) (attr : TextAttribute) : ScreenBufferRow :=
  if text.isEmpty then r
  else
    match r.tryWriteMeasuredRunOnFilledRow col text widths totalColumns allSingleWidth attr with
    | some r => r
    | none =>
      if col = 0 ∧ totalColumns = r.width then r.writeFullRow text widths allSingleWidth attr
      else
        let (done, r) := if allSingleWidth then r.tryWriteSingleWidthRun col text attr else (false, r)
        if done then r
        else
          let single := if allSingleWidth then none
            else r.tryWriteMeasuredRunOnSingleWidthLayout col text widths totalColumns attr
          let matching := if allSingleWidth then none
            else r.tryOverwriteMatchingMeasuredRun col text widths totalColumns attr
          match single, matching with
          | some r, _ => r
          | none, some r => r
          | none, none => r.spliceMeasuredRun col text widths totalColumns attr

/-- How `screen_buffer::write_text_row` writes the text it has measured: `widths`
holds the columns of each character. -/
def writeTextRun (r : ScreenBufferRow) (col : Nat) (text : List Char32) (widths : List Nat) (attr : TextAttribute) :
    ScreenBufferRow :=
  let cellCount := u16 widths.sum
  if text.isEmpty then r
  else if widths.all (· == 1) then
    if col = 0 ∧ cellCount = r.width then r.writeMeasuredRun col text [] cellCount true attr
    else
      let (done, r) := r.tryWriteSingleWidthRun col text attr
      if done then r else r.writeMeasuredRun col text (List.replicate text.length 1) cellCount false attr
  else r.writeMeasuredRun col text widths cellCount false attr

def clearCell (r : ScreenBufferRow) (col : Nat) (attr : TextAttribute := {}) : ScreenBufferRow :=
  r.writeGlyph col [0x20] 1 attr

/-- One turn of the loop of `copy_from`. -/
def copyColumn (src : ScreenBufferRow) (srcStart dstStart : Nat) (r : ScreenBufferRow) (i : Nat) : ScreenBufferRow :=
  let sc := u16 (srcStart + i)
  if src.isTrailing sc then r
  else r.writeGlyph (u16 (dstStart + i)) (src.glyphAt sc) (src.glyphWidth sc) (src.attrAt sc)

def copyFrom (r src : ScreenBufferRow) (srcStart dstStart count : Nat) : ScreenBufferRow :=
  ((List.range count).takeWhile fun i => dstStart + i < r.width && srcStart + i < src.width).foldl
    (copyColumn src srcStart dstStart) r

/-! ## CHAR_INFO -/

def dbcsFlags (r : ScreenBufferRow) (col : Nat) : UInt16 :=
  if r.isTrailing col then COMMON_LVB_TRAILING_BYTE
  else if col + 1 < r.width ∧ r.isTrailing (u16 (col + 1)) then COMMON_LVB_LEADING_BYTE
  else 0

def toCharInfo (r : ScreenBufferRow) : List CharInfo :=
  (List.range r.width).map fun col =>
    { wchar := match r.glyphAt col with
        | [] => 0x20
        | c :: _ => if c ≤ 0xFFFF then c else 0xFFFD
      attributes := (r.attrAt col).legacy ||| r.dbcsFlags col }

/-- One turn of the loop of `from_char_info`, for the cell with index `i`. -/
def importCell (dstCol : Nat) (r : ScreenBufferRow) (cell : CharInfo × Nat) : ScreenBufferRow :=
  let (src, i) := cell
  let col := u16 (dstCol + i)
  let attr := TextAttribute.ofWord src.attributes
  let leading := src.attributes &&& COMMON_LVB_LEADING_BYTE != 0
  let trailing := !leading && src.attributes &&& COMMON_LVB_TRAILING_BYTE != 0
  let wch := src.wchar
  if wch = 0 ∧ leading = false ∧ trailing = false then r
  else
    let cp := if 0xD800 ≤ wch ∧ wch ≤ 0xDBFF then 0xFFFD else if wch = 0 then 0x20 else wch
    if leading = true ∧ col + 1 < r.width then
      let nextAttr := r.attrAt (u16 (col + 1))
      (r.writeGlyph col [cp] 2 attr).setAttr (u16 (col + 1)) nextAttr
    else if trailing = true ∧ i ≠ 0 then r.setAttr col attr
    else if trailing = true ∧ 0 < col then
      let prevAttr := r.attrAt (u16 (col - 1))
      (r.writeGlyph (u16 (col - 1)) [cp] 2 prevAttr).setAttr col attr
    else r.writeGlyph col (if leading || trailing then [0x20] else [cp]) 1 attr

/-- `from_char_info(src, src.size(), dst_col)`. -/
def fromCharInfo (r : ScreenBufferRow) (src : List CharInfo) (dstCol : Nat := 0) : ScreenBufferRow :=
  let r := r.materializeFilled
  (src.zipIdx.takeWhile fun p => dstCol + p.2 < r.width).foldl (importCell dstCol) r

end ScreenBufferRow

end Corehost
