import Corehost.Lib.Ring
import Corehost.Row.Model
import Corehost.Screen.Viewport

/-!
# The screen buffer

The model of `screen_buffer` (`screen_buffer.hpp`), in the order of the source.
Logical row `y` is the element `rowOrigin + y` of `rows`, counted round.

`cw ch` is what `char_width_for_mode` returns for a character, in the
measurement mode of the call. A row that has been moved from has empty
containers.
-/

namespace Corehost

open Lib

structure ScreenBuffer where
  size : Coord := defaultConsoleSize
  viewport : ConsoleViewport := {}
  rows : List ScreenBufferRow := []
  scrollSavedRows : List ScreenBufferRow := []
  rowOrigin : Nat := 0
deriving DecidableEq, Repr

/-- What a row holds after its containers have been moved to another row. -/
def ScreenBufferRow.movedFrom (r : ScreenBufferRow) : ScreenBufferRow := { r with text := [], columns := [], attrs := [] }

/-- `char_width_for_mode`, restricted to one and two columns. -/
def widthColumns (cw : Char32 → Int) (ch : Char32) : Int := clamp (cw ch) 1 2

namespace ScreenBuffer

/-! ## Rows -/

def ensureRows (s : ScreenBuffer) : ScreenBuffer :=
  { s with rowOrigin := 0, rows := List.replicate s.size.y.toNat (ScreenBufferRow.ofWidth (u16 s.size.x.toNat)) }

/-- The constructor `screen_buffer(sz)`. -/
def ofSize (sz : Coord) : ScreenBuffer := ensureRows { size := sz, viewport := .ofBuffer sz }

def physicalRowIndex (s : ScreenBuffer) (y : Int) : Nat :=
  if s.rows.length = 0 then 0 else (s.rowOrigin + y.toNat) % s.rows.length

def linearizeRows (s : ScreenBuffer) : ScreenBuffer :=
  if s.rowOrigin = 0 ∨ s.rows = [] then s else { s with rows := s.rows.rotate s.rowOrigin, rowOrigin := 0 }

def row (s : ScreenBuffer) (y : Int) : ScreenBufferRow := s.rows.getD (s.physicalRowIndex y) {}

/-- A call on `row(y)`. -/
def modifyRow (s : ScreenBuffer) (y : Int) (f : ScreenBufferRow → ScreenBufferRow) : ScreenBuffer :=
  { s with rows := s.rows.modify (s.physicalRowIndex y) f }

def valid (s : ScreenBuffer) (c : Coord) : Bool := 0 ≤ c.x && c.x < s.size.x && 0 ≤ c.y && c.y < s.size.y

def validY (s : ScreenBuffer) (y : Int) : Bool := 0 ≤ y && y < s.size.y

def clampRect (s : ScreenBuffer) (r : SmallRect) : SmallRect :=
  { left := if r.left < 0 then 0 else r.left
    top := if r.top < 0 then 0 else r.top
    right := if r.right ≥ s.size.x then s.size.x - 1 else r.right
    bottom := if r.bottom ≥ s.size.y then s.size.y - 1 else r.bottom }

def resize (s : ScreenBuffer) (newSize : Coord) : ScreenBuffer :=
  let newSize : Coord := ⟨if newSize.x < 1 then 1 else newSize.x, if newSize.y < 1 then 1 else newSize.y⟩
  if newSize.x = s.size.x ∧ newSize.y = s.size.y then s
  else
    let s := s.linearizeRows
    let oldRows := s.rows
    let oldSize := s.size
    let s := { s with size := newSize, viewport := (s.viewport.clampToBuffer newSize).2 }.ensureRows
    let copyH := (if oldSize.y < newSize.y then oldSize.y else newSize.y).toNat
    (List.range copyH).foldl (fun s y => { s with
      rows := s.rows.modify y fun r => r.copyFrom (oldRows.getD y {}) 0 0 (u16 oldSize.x.toNat) }) s

/-! ## Reading and writing -/

def glyphAt (s : ScreenBuffer) (c : Coord) : List Char32 := if s.valid c then (s.row c.y).glyphAt (u16 c.x.toNat) else []

def atU32 (s : ScreenBuffer) (c : Coord) : Char32 := if s.valid c then (s.glyphAt c).headD 0x20 else 0x20

def glyphWidth (s : ScreenBuffer) (c : Coord) : Nat := if s.valid c then (s.row c.y).glyphWidth (u16 c.x.toNat) else 0

def attrAt (s : ScreenBuffer) (c : Coord) : UInt16 :=
  if s.valid c then ((s.row c.y).attrAt (u16 c.x.toNat)).legacy else 0x07

def writeGlyph (s : ScreenBuffer) (c : Coord) (text : List Char32) (width : Int) (attr : UInt16 := 0x07) : ScreenBuffer :=
  if s.valid c = false ∨ text = [] then s
  else s.modifyRow c.y fun r => r.writeGlyph (u16 c.x.toNat) text (clamp width 1 2) (.ofWord attr)

/-- The loop of `write_text_row` that measures the text: the columns of the
characters that fit in front of the right edge of the viewport. -/
def measureRow (cw : Char32 → Int) (x right : Int) (cellCount : Nat) : List Char32 → List Nat
  | [] => []
  | ch :: text =>
    let w := widthColumns cw ch
    if x + cellCount + w - 1 > right then []
    else w.toNat :: measureRow cw x right (u16 (cellCount + w.toNat)) text

structure TextRowWriteResult where
  consumed : Nat := 0
  rowEnd : Bool := false
deriving DecidableEq, Repr

/-- The result, the cursor and the buffer after the call. -/
def writeTextRow (s : ScreenBuffer) (cw : Char32 → Int) (cursor : Coord) (text : List Char32) (attr : UInt16) :
    TextRowWriteResult × Coord × ScreenBuffer :=
  if text = [] then ({}, cursor, s)
  else
    let view := s.viewport.rect
    let cursor : Coord := ⟨clamp cursor.x view.left view.right, clamp cursor.y view.top view.bottom⟩
    let widths := measureRow cw cursor.x view.right 0 text
    let consumed := widths.length
    let s' :=
      if consumed = 0 then s
      else s.modifyRow cursor.y fun r => r.writeTextRun (u16 cursor.x.toNat) (text.take consumed) widths (.ofWord attr)
    let cursor : Coord := if consumed = 0 then cursor else { cursor with x := i16 (cursor.x + u16 widths.sum) }
    ({ consumed := consumed, rowEnd := cursor.x > view.right || consumed < text.length }, cursor, s')

def setAttr (s : ScreenBuffer) (c : Coord) (attr : UInt16) : ScreenBuffer :=
  if s.valid c then s.modifyRow c.y fun r => r.setAttr (u16 c.x.toNat) (.ofWord attr) else s

def clearCell (s : ScreenBuffer) (c : Coord) (attr : UInt16 := 0x07) : ScreenBuffer :=
  if s.valid c then s.modifyRow c.y fun r => r.clearCell (u16 c.x.toNat) (.ofWord attr) else s

def clear (s : ScreenBuffer) (attr : UInt16 := 0x07) : ScreenBuffer :=
  { s with rowOrigin := 0, rows := List.replicate s.rows.length (ScreenBufferRow.ofWidth (u16 s.size.x.toNat) attr) }

/-! ## Filling and scrolling -/

def fillRow (s : ScreenBuffer) (y : Int) (cp : Char32) (attr : UInt16) : ScreenBuffer :=
  s.modifyRow y fun r => r.resetFill (u16 s.size.x.toNat) cp (.ofWord attr)

/-- `for (y = first; y != first + count; ++y) _fill_row(y, …)`. -/
def fillRows (s : ScreenBuffer) (first count : Nat) (cp : Char32) (attr : UInt16) : ScreenBuffer :=
  (List.range' first count).foldl (fun s (y : Nat) => s.fillRow y cp attr) s

/-- The columns `left, …, right` of one row filled with single glyphs. -/
def fillColumns (cp : Char32) (attr : UInt16) (left right : Int) (r : ScreenBufferRow) : ScreenBufferRow :=
  (List.range' left.toNat (right - left + 1).toNat).foldl (fun r x => r.writeGlyph (u16 x) [cp] 1 (.ofWord attr)) r

/-- `_fill`. -/
def fillRect (s : ScreenBuffer) (r : SmallRect) (cp : Char32) (attr : UInt16) : ScreenBuffer :=
  let r := s.clampRect r
  if r.isValid = false then s
  else (List.range' r.top.toNat (r.bottom - r.top + 1).toNat).foldl
    (fun s (y : Nat) => s.modifyRow y (fillColumns cp attr r.left r.right)) s

/-- The path of `scroll` for the whole buffer: the origin of the rows moves. -/
def scrollRing (s : ScreenBuffer) (dy : Int) (cp : Char32) (attr : UInt16) : ScreenBuffer :=
  let height := s.size.y.toNat
  let count := min dy.natAbs height
  if count = height then { s with rowOrigin := 0 }.fillRows 0 height cp attr
  else if dy < 0 then
    { s with rowOrigin := (s.rowOrigin + count) % height }.fillRows (height - count) count cp attr
  else { s with rowOrigin := (s.rowOrigin + height - count) % height }.fillRows 0 count cp attr

/-- The path of `scroll` for whole rows: the rows `top, …, bottom` are moved. -/
def scrollRows (s : ScreenBuffer) (top bottom : Nat) (dy : Int) (cp : Char32) (attr : UInt16) : ScreenBuffer :=
  let height := bottom - top + 1
  let count := min dy.natAbs height
  let move := ScreenBufferRow.movedFrom
  if dy < 0 then
    let rows :=
      if count = 1 then
        let reusable := s.rows.getD top {}
        (moveForward move (s.rows.set top reusable.movedFrom) top 1 (height - 1)).set bottom reusable
      else moveForward move s.rows top count (height - count)
    { s with rows := rows }.fillRows (bottom + 1 - count) count cp attr
  else
    let rows :=
      if count = 1 then
        let reusable := s.rows.getD bottom {}
        (moveBackward move (s.rows.set bottom reusable.movedFrom) top 1 (height - 1)).set top reusable
      else moveBackward move s.rows top count (height - count)
    { s with rows := rows }.fillRows top count cp attr

/-- The last path of `scroll`: the moved cells are saved, the source is filled
and the saved cells are written. -/
def scrollRect (s : ScreenBuffer) (sr clip : SmallRect) (dx dy : Int) (cp : Char32) (attr : UInt16) : ScreenBuffer :=
  let sl := max sr.left (clip.left - dx)
  let st := max sr.top (clip.top - dy)
  let srr := min sr.right (clip.right - dx)
  let sb := min sr.bottom (clip.bottom - dy)
  let moves : Bool := sl ≤ srr && st ≤ sb
  let sw := srr - sl + 1
  let sh := (sb - st + 1).toNat
  let saved :=
    if moves then
      (Lib.resize s.scrollSavedRows sh {}).mapIdx fun (y : Nat) r =>
        (r.resetFill (u16 s.size.x.toNat) 0x20 (.ofWord attr)).copyFrom (s.rows.getD (st + y).toNat {}) (u16 sl.toNat) 0
          (u16 sw.toNat)
    else s.scrollSavedRows
  let s := { s with scrollSavedRows := saved }
  let fr : SmallRect :=
    ⟨max sr.left clip.left, max sr.top clip.top, min sr.right clip.right, min sr.bottom clip.bottom⟩
  let s := if fr.isValid then s.fillRect fr cp attr else s
  if moves then
    (List.range sh).foldl (fun s (y : Nat) => { s with
      rows := s.rows.modify (st + dy + y).toNat fun r =>
        r.copyFrom (s.scrollSavedRows.getD y {}) 0 (u16 (sl + dx).toNat) (u16 sw.toNat) }) s
  else s

/-- The clip that `scroll` uses. -/
def clipRect (s : ScreenBuffer) (clip : SmallRect) (useClip : Bool) : SmallRect :=
  if useClip then s.clampRect clip else ⟨0, 0, s.size.x - 1, s.size.y - 1⟩

def scroll (s : ScreenBuffer) (sr clip : SmallRect) (useClip : Bool) (dest : Coord) (cp : Char32) (attr : UInt16) :
    ScreenBuffer :=
  let dx := dest.x - sr.left
  let dy := dest.y - sr.top
  let sr := s.clampRect sr
  if sr.isValid = false then s
  else
    let full : SmallRect := ⟨0, 0, s.size.x - 1, s.size.y - 1⟩
    let clip := s.clipRect clip useClip
    if clip.isValid = false then s
    else if dx = 0 ∧ dy ≠ 0 ∧ sr = full ∧ clip = full then s.scrollRing dy cp attr
    else
      let s := s.linearizeRows
      if dx = 0 ∧ dy ≠ 0 ∧ sr.left = 0 ∧ sr.right = s.size.x - 1 ∧ clip = sr then
        s.scrollRows sr.top.toNat sr.bottom.toNat dy cp attr
      else s.scrollRect sr clip dx dy cp attr

def shiftRows (s : ScreenBuffer) (dy : Int) (fillAttr : UInt16) : ScreenBuffer :=
  if dy = 0 then s
  else
    let all : SmallRect := ⟨0, 0, i16 (s.size.x - 1), i16 (s.size.y - 1)⟩
    s.scroll all all false ⟨0, dy⟩ 0x20 fillAttr

end ScreenBuffer

end Corehost
