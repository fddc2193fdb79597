import Corehost.Screen.Model
import Corehost.Vt.Send
import Corehost.Vt.Sgr

/-!
# Repainting cells

The model of the functions of `pipe_bridge` (`pipe_bridge.hpp`) that write cells
of the screen buffer to the terminal: `vt_write_attr`, `vt_write_cells` and
`vt_repaint_cells`. `lastAttr` is the SGR that the terminal has, `0xFFFF` when it
is not known.
-/

namespace Corehost

open Lib

/-- The SGR parameters of the 16 colours of an attribute word. -/
def fgMap : List Int := [30, 34, 32, 36, 31, 35, 33, 37, 90, 94, 92, 96, 91, 95, 93, 97]
def bgMap : List Int := [40, 44, 42, 46, 41, 45, 43, 47, 100, 104, 102, 106, 101, 105, 103, 107]

def vtWriteAttr (attr : UInt16) : List Char32 :=
  if attr = 0x07 then chars ['\x1b', '[', '0', 'm']
  else
    let fg := attr &&& 0x0F
    let bg := (attr >>> 4) &&& 0x0F
    let fl := (attr >>> 8) &&& 0xFF
    chars ['\x1b', '[', '0'] ++
      (if fl &&& COMMON_LVB_REVERSE_VIDEO ≠ 0 then chars [';', '7'] else []) ++
      (if fl &&& COMMON_LVB_UNDERSCORE ≠ 0 then chars [';', '4'] else []) ++
      (if fl &&& COMMON_LVB_GRID_HORIZONTAL ≠ 0 then chars [';', '9'] else []) ++
      (if fg ≠ 0x07 then chars [';'] ++ vtAppendInt (fgMap.getD (fg &&& 15).toNat 0) else []) ++
      (if bg ≠ 0x00 then chars [';'] ++ vtAppendInt (bgMap.getD (bg &&& 15).toNat 0) else []) ++
      chars ['m']

def vtWriteCell (ch : Char32) : List Char32 := [if ch = 0 then 0x20 else ch]

namespace ScreenBuffer

/-- One turn of the loop of `vt_write_cells`: the output so far and `last_attr`. -/
def vtWriteCellAt (s : ScreenBuffer) (y left right : Int) (out : List Char32 × UInt16) (x : Int) : List Char32 × UInt16 :=
  let c : Coord := ⟨x, y⟩
  let width : Int := s.glyphWidth c
  if width = 0 ∧ x ≠ left then out
  else
    let attr := s.attrAt c
    let out := if attr ≠ out.2 then (out.1 ++ vtWriteAttr attr, attr) else out
    (out.1 ++ vtWriteCell (if width = 0 ∨ x + width - 1 > right then 0x20 else s.atU32 c), out.2)

def vtWriteCells (s : ScreenBuffer) (y left right : Int) (lastAttr : UInt16) : List Char32 × UInt16 :=
  ((List.range (right - left + 1).toNat).map fun (k : Nat) => left + k).foldl (s.vtWriteCellAt y left right) ([], lastAttr)

/-- `while (left > 0 && sb.glyph_width({left, y}) == 0) --left`. -/
def glyphStart (s : ScreenBuffer) (y : Int) : Nat → Nat
  | 0 => 0
  | x + 1 => if s.glyphWidth ⟨(x + 1 : Nat), y⟩ = 0 then s.glyphStart y x else x + 1

/-- `while (right + 1 < sb.size.X && sb.glyph_width({right + 1, y}) == 0) ++right`, at most `n` times. -/
def glyphEnd (s : ScreenBuffer) (y right : Int) : Nat → Int
  | 0 => right
  | n + 1 => if right + 1 < s.size.x ∧ s.glyphWidth ⟨right + 1, y⟩ = 0 then s.glyphEnd y (right + 1) n else right

def vtRepaintCells (s : ScreenBuffer) (y left right : Int) (lastAttr : UInt16) : List Char32 × UInt16 :=
  let left := max left 0
  let right := min right (s.size.x - 1)
  if y < 0 ∨ y ≥ s.size.y ∨ left > right then ([], lastAttr)
  else
    let left : Int := s.glyphStart y left.toNat
    let right := s.glyphEnd y right (s.size.x - right).toNat
    let (cells, lastAttr) := s.vtWriteCells y left right lastAttr
    (vtWriteCup y left ++ cells, lastAttr)

end ScreenBuffer

end Corehost
