import Corehost.Lib.Cpp
import Mathlib.Tactic.SplitIfs

/-!
# Coordinates and the viewport

The model of `console_viewport` (`console_viewport.hpp`): the part of a screen
buffer that the terminal shows. Positions in the buffer are absolute, positions
in the terminal are relative to the viewport.

A `SHORT` is an integer, with `i16` where the source converts to `SHORT`.
-/

namespace Corehost

open Lib

/-- A `COORD`. -/
structure Coord where
  x : Int := 0
  y : Int := 0
deriving DecidableEq, Repr

/-- A `SMALL_RECT`. Its last column and row belong to it. -/
structure SmallRect where
  left : Int := 0
  top : Int := 0
  right : Int := 0
  bottom : Int := 0
deriving DecidableEq, Repr

namespace SmallRect

/-- `_rvalid`. -/
def isValid (r : SmallRect) : Bool := r.left ≤ r.right && r.top ≤ r.bottom

def Has (r : SmallRect) (x y : Int) : Prop := (r.left ≤ x ∧ x ≤ r.right) ∧ r.top ≤ y ∧ y ≤ r.bottom

instance (r : SmallRect) (x y : Int) : Decidable (r.Has x y) := inferInstanceAs (Decidable (_ ∧ _))

end SmallRect

/-- `std::clamp`. -/
def clamp (v lo hi : Int) : Int := if v < lo then lo else if hi < v then hi else v

theorem le_clamp {v lo hi : Int} (h : lo ≤ hi) : lo ≤ clamp v lo hi := by unfold clamp; split_ifs <;> omega

theorem clamp_le {v lo hi : Int} (h : lo ≤ hi) : clamp v lo hi ≤ hi := by unfold clamp; split_ifs <;> omega

theorem clamp_of_mem {v lo hi : Int} (h : lo ≤ v) (h' : v ≤ hi) : clamp v lo hi = v := by
  unfold clamp; split_ifs <;> omega

def defaultConsoleSize : Coord := ⟨120, 30⟩

def validDimension (value : Int) : Int := max value 1

def clampedDimension (value maximum : Int) : Int := clamp value 1 maximum

structure ConsoleViewport where
  rect : SmallRect := ⟨0, 0, 119, 29⟩
deriving DecidableEq, Repr

namespace ConsoleViewport

/-- `reset_to_buffer`. -/
def ofBuffer (bufferSize : Coord) : ConsoleViewport :=
  ⟨⟨0, 0, i16 (validDimension bufferSize.x - 1), i16 (validDimension bufferSize.y - 1)⟩⟩

def origin (v : ConsoleViewport) : Coord := ⟨v.rect.left, v.rect.top⟩

def size (v : ConsoleViewport) : Coord :=
  ⟨i16 (v.rect.right - v.rect.left + 1), i16 (v.rect.bottom - v.rect.top + 1)⟩

def covers (v : ConsoleViewport) (bufferSize : Coord) : Bool :=
  v.rect.left == 0 && v.rect.top == 0 && v.rect.right == validDimension bufferSize.x - 1 &&
    v.rect.bottom == validDimension bufferSize.y - 1

def contains (v : ConsoleViewport) (position : Coord) : Bool :=
  v.rect.left ≤ position.x && position.x ≤ v.rect.right && v.rect.top ≤ position.y && position.y ≤ v.rect.bottom

def relativePosition (v : ConsoleViewport) (position : Coord) : Coord :=
  ⟨i16 (position.x - v.rect.left), i16 (position.y - v.rect.top)⟩

def clampedRelativePosition (v : ConsoleViewport) (position : Coord) : Coord :=
  let p := v.relativePosition position
  ⟨clamp p.x 0 (i16 (v.size.x - 1)), clamp p.y 0 (i16 (v.size.y - 1))⟩

/-- Whether the rectangle has changed, and the viewport after the call. -/
def setRect (v : ConsoleViewport) (rect : SmallRect) (bufferSize : Coord) : Bool × ConsoleViewport :=
  let bufferWidth := validDimension bufferSize.x
  let bufferHeight := validDimension bufferSize.y
  let width := clampedDimension (rect.right - rect.left + 1) bufferWidth
  let height := clampedDimension (rect.bottom - rect.top + 1) bufferHeight
  let left := clamp rect.left 0 (i16 (bufferWidth - width))
  let top := clamp rect.top 0 (i16 (bufferHeight - height))
  let new : SmallRect := ⟨left, top, i16 (left + width - 1), i16 (top + height - 1)⟩
  (v.rect != new, ⟨new⟩)

def setSize (v : ConsoleViewport) (viewportSize bufferSize : Coord) : Bool × ConsoleViewport :=
  v.setRect { v.rect with
    right := i16 (v.rect.left + max viewportSize.x 1 - 1)
    bottom := i16 (v.rect.top + max viewportSize.y 1 - 1) } bufferSize

def setOrigin (v : ConsoleViewport) (origin bufferSize : Coord) : Bool × ConsoleViewport :=
  v.setRect ⟨origin.x, origin.y, i16 (origin.x + v.size.x - 1), i16 (origin.y + v.size.y - 1)⟩ bufferSize

def clampToBuffer (v : ConsoleViewport) (bufferSize : Coord) : Bool × ConsoleViewport := v.setRect v.rect bufferSize

def snapToCursor (v : ConsoleViewport) (cursor bufferSize : Coord) : Bool × ConsoleViewport :=
  let x :=
    if cursor.x < v.rect.left then cursor.x
    else if cursor.x > v.rect.right then i16 (v.rect.left + cursor.x - v.rect.right)
    else v.rect.left
  let y :=
    if cursor.y < v.rect.top then cursor.y
    else if cursor.y > v.rect.bottom then i16 (v.rect.top + cursor.y - v.rect.bottom)
    else v.rect.top
  v.setOrigin ⟨x, y⟩ bufferSize

/-! ## The viewport inside the buffer -/

/-- The viewport is a rectangle of the buffer and not empty. -/
structure Inside (v : ConsoleViewport) (bufferSize : Coord) : Prop where
  left : 0 ≤ v.rect.left
  leftRight : v.rect.left ≤ v.rect.right
  right : v.rect.right < bufferSize.x
  top : 0 ≤ v.rect.top
  topBottom : v.rect.top ≤ v.rect.bottom
  bottom : v.rect.bottom < bufferSize.y

/-- A side of the rectangle after it has been limited to a side of the buffer. -/
theorem side_inside {n lo hi : Int} (hn : 1 ≤ n ∧ n ≤ 0x7FFF) :
    let len := clampedDimension (hi - lo + 1) (validDimension n)
    let start := clamp lo 0 (i16 (validDimension n - len))
    0 ≤ start ∧ start ≤ i16 (start + len - 1) ∧ i16 (start + len - 1) < n := by
  intro len start
  have hv : validDimension n = n := by unfold validDimension; omega
  have hlen : 1 ≤ len ∧ len ≤ n := by
    simp only [len, clampedDimension, hv]
    exact ⟨le_clamp hn.1, clamp_le hn.1⟩
  have hspace : i16 (validDimension n - len) = n - len := by rw [hv]; exact i16_of_range (by omega) (by omega)
  have h0 : 0 ≤ start := le_clamp (by rw [hspace]; omega)
  have h1 : start ≤ n - len := by rw [← hspace]; exact clamp_le (by rw [hspace]; omega)
  rw [i16_of_range (by omega) (by omega)]
  omega

theorem setRect_inside (v : ConsoleViewport) (rect : SmallRect) {bufferSize : Coord}
    (hx : 1 ≤ bufferSize.x ∧ bufferSize.x ≤ 0x7FFF) (hy : 1 ≤ bufferSize.y ∧ bufferSize.y ≤ 0x7FFF) :
    (v.setRect rect bufferSize).2.Inside bufferSize := by
  obtain ⟨h1, h2, h3⟩ := side_inside hx
  obtain ⟨h4, h5, h6⟩ := side_inside hy
  exact ⟨h1, h2, h3, h4, h5, h6⟩

theorem ofBuffer_inside {bufferSize : Coord} (hx : 1 ≤ bufferSize.x ∧ bufferSize.x ≤ 0x7FFF)
    (hy : 1 ≤ bufferSize.y ∧ bufferSize.y ≤ 0x7FFF) : (ofBuffer bufferSize).Inside bufferSize := by
  have h (n : Int) (hn : 1 ≤ n ∧ n ≤ 0x7FFF) : i16 (validDimension n - 1) = n - 1 := by
    rw [i16_of_range] <;> (unfold validDimension; omega)
  constructor <;> simp only [ofBuffer, h _ hx, h _ hy] <;> omega

end ConsoleViewport

end Corehost
