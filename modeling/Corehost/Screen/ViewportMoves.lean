import Corehost.Screen.Viewport

/-!
# The viewport after a new size or a new origin

What `set_size` and `snap_to_cursor` (`console_viewport.hpp`) leave:

* `setRect_eq`: `set_rect`, with each side of the rectangle limited to a side of
  the buffer;
* `set_size_exact_iff`: when `set_size` gives the size that it is asked for;
* `snap_to_cursor_spec`: the cursor is in the viewport after the shortest move.
-/

namespace Corehost

open Lib

namespace ConsoleViewport

variable {v : ConsoleViewport} {rect : SmallRect} {bufferSize : Coord}

/-! ## The sides of the rectangle -/

/-- How long a side from `lo` to `hi` is after it has been limited to `n`. -/
def sideLength (lo hi n : Int) : Int := clampedDimension (hi - lo + 1) (validDimension n)

/-- Where such a side begins. -/
def sideStart (lo hi n : Int) : Int := clamp lo 0 (i16 (validDimension n - sideLength lo hi n))

theorem setRect_eq (v : ConsoleViewport) (rect : SmallRect) (bufferSize : Coord) :
    (v.setRect rect bufferSize).2.rect =
      ⟨sideStart rect.left rect.right bufferSize.x, sideStart rect.top rect.bottom bufferSize.y,
       i16 (sideStart rect.left rect.right bufferSize.x + sideLength rect.left rect.right bufferSize.x - 1),
       i16 (sideStart rect.top rect.bottom bufferSize.y + sideLength rect.top rect.bottom bufferSize.y - 1)⟩ := rfl

variable {lo hi n : Int}

theorem sideLength_bounds (lo hi : Int) (hn : 1 ≤ n) : 1 ≤ sideLength lo hi n ∧ sideLength lo hi n ≤ n := by
  have hv : validDimension n = n := by unfold validDimension; omega
  rw [sideLength, hv]
  exact ⟨le_clamp hn, clamp_le hn⟩

theorem sideLength_eq (h : lo ≤ hi) (hfit : hi - lo < n) : sideLength lo hi n = hi - lo + 1 := by
  have hv : validDimension n = n := by unfold validDimension; omega
  rw [sideLength, hv]
  exact clamp_of_mem (by omega) (by omega)

/-- A side that ends in front of its start is of length 1. -/
theorem sideLength_of_lt (h : hi < lo) (hn : 1 ≤ n) : sideLength lo hi n = 1 := by
  have hv : validDimension n = n := by unfold validDimension; omega
  rw [sideLength, hv]
  unfold clampedDimension clamp
  split_ifs <;> omega

theorem sideStart_eq (hn : 1 ≤ n ∧ n ≤ 0x7FFF) : sideStart lo hi n = clamp lo 0 (n - sideLength lo hi n) := by
  have hv : validDimension n = n := by unfold validDimension; omega
  obtain ⟨h1, h2⟩ := sideLength_bounds lo hi hn.1
  rw [sideStart, hv, i16_of_range (by omega) (by omega)]

/-- The side is inside `0, …, n - 1`, and its last place is no wrapped `SHORT`. -/
theorem sideStart_bounds (lo hi : Int) (hn : 1 ≤ n ∧ n ≤ 0x7FFF) :
    0 ≤ sideStart lo hi n ∧ sideStart lo hi n + sideLength lo hi n ≤ n := by
  obtain ⟨h1, h2⟩ := sideLength_bounds lo hi hn.1
  rw [sideStart_eq hn]
  have h0 : 0 ≤ clamp lo 0 (n - sideLength lo hi n) := le_clamp (by omega)
  have h3 : clamp lo 0 (n - sideLength lo hi n) ≤ n - sideLength lo hi n := clamp_le (by omega)
  omega

theorem i16_sideEnd (hn : 1 ≤ n ∧ n ≤ 0x7FFF) :
    i16 (sideStart lo hi n + sideLength lo hi n - 1) = sideStart lo hi n + sideLength lo hi n - 1 := by
  obtain ⟨h1, h2⟩ := sideLength_bounds lo hi hn.1
  obtain ⟨h3, h4⟩ := sideStart_bounds lo hi hn
  exact i16_of_range (by omega) (by omega)

theorem size_setRect (v : ConsoleViewport) (rect : SmallRect) (hx : 1 ≤ bufferSize.x ∧ bufferSize.x ≤ 0x7FFF)
    (hy : 1 ≤ bufferSize.y ∧ bufferSize.y ≤ 0x7FFF) :
    (v.setRect rect bufferSize).2.size =
      ⟨sideLength rect.left rect.right bufferSize.x, sideLength rect.top rect.bottom bufferSize.y⟩ := by
  obtain ⟨hw, hw'⟩ := sideLength_bounds rect.left rect.right hx.1
  obtain ⟨hh, hh'⟩ := sideLength_bounds rect.top rect.bottom hy.1
  rw [size, setRect_eq]
  dsimp only
  rw [i16_sideEnd hx, i16_sideEnd hy]
  congr 1 <;> rw [i16_of_range (by omega) (by omega)] <;> omega

/-! ## A new size -/

/-- No corner that `set_size` computes, or the `set_rect` in it, leaves `SHORT`. -/
def CornersFit (v : ConsoleViewport) (viewportSize bufferSize : Coord) : Prop :=
  let right := v.rect.left + max viewportSize.x 1 - 1
  let bottom := v.rect.top + max viewportSize.y 1 - 1
  IsShort right ∧ IsShort bottom ∧
    IsShort (sideStart v.rect.left (i16 right) bufferSize.x + sideLength v.rect.left (i16 right) bufferSize.x - 1) ∧
    IsShort (sideStart v.rect.top (i16 bottom) bufferSize.y + sideLength v.rect.top (i16 bottom) bufferSize.y - 1)

theorem isShort_sideEnd (hn : 1 ≤ n ∧ n ≤ 0x7FFF) : IsShort (sideStart lo hi n + sideLength lo hi n - 1) := by
  rw [← i16_sideEnd hn]
  exact isShort_i16 _

/-- A side from `lo` on that `set_size` makes `len` long: its end wraps when it leaves `SHORT`. -/
theorem sideLength_of_size_iff {len : Int} (hlo : 0 ≤ lo ∧ lo < n) (hn : n ≤ 0x7FFF) (hlen : 1 ≤ len ∧ len ≤ n) :
    sideLength lo (i16 (lo + max len 1 - 1)) n = len ↔ lo + len ≤ 0x8000 := by
  rw [show lo + max len 1 - 1 = lo + len - 1 by omega]
  by_cases hfit : lo + len ≤ 0x8000
  · rw [i16_of_range (by omega) (by omega), sideLength_eq (by omega) (by omega)]
    exact ⟨fun _ => hfit, fun _ => by omega⟩
  · have hwrap : i16 (lo + len - 1) = lo + len - 1 - 0x10000 := by
      unfold i16
      rw [Int.bmod_def]
      omega
    rw [hwrap, sideLength_of_lt (by omega) (by omega)]
    exact ⟨fun h => by omega, fun h => absurd h hfit⟩

/-- `set_size` gives the requested size inside the buffer, with every corner in
`SHORT`, exactly when the last column and row, from the origin on, are in `SHORT`. -/
theorem set_size_exact_iff (v : ConsoleViewport) {viewportSize bufferSize : Coord}
    (hleft : 0 ≤ v.rect.left ∧ v.rect.left < bufferSize.x) (htop : 0 ≤ v.rect.top ∧ v.rect.top < bufferSize.y)
    (hbuffer : IsShort bufferSize.x ∧ IsShort bufferSize.y)
    (hw : 1 ≤ viewportSize.x ∧ viewportSize.x ≤ bufferSize.x) (hh : 1 ≤ viewportSize.y ∧ viewportSize.y ≤ bufferSize.y) :
    ((v.setSize viewportSize bufferSize).2.size = viewportSize ∧ (v.setSize viewportSize bufferSize).2.Inside bufferSize ∧
        v.CornersFit viewportSize bufferSize) ↔
      v.rect.left + viewportSize.x ≤ 0x8000 ∧ v.rect.top + viewportSize.y ≤ 0x8000 := by
  obtain ⟨⟨-, hbx⟩, -, hby⟩ := hbuffer
  have hx : 1 ≤ bufferSize.x ∧ bufferSize.x ≤ 0x7FFF := by omega
  have hy : 1 ≤ bufferSize.y ∧ bufferSize.y ≤ 0x7FFF := by omega
  have hwidth := sideLength_of_size_iff hleft hx.2 hw
  have hheight := sideLength_of_size_iff htop hy.2 hh
  have hsize : (v.setSize viewportSize bufferSize).2.size =
      ⟨sideLength v.rect.left (i16 (v.rect.left + max viewportSize.x 1 - 1)) bufferSize.x,
       sideLength v.rect.top (i16 (v.rect.top + max viewportSize.y 1 - 1)) bufferSize.y⟩ := size_setRect v _ hx hy
  rw [hsize]
  constructor
  · rintro ⟨h, -, -⟩
    exact ⟨hwidth.mp (congrArg Coord.x h), hheight.mp (congrArg Coord.y h)⟩
  · rintro ⟨hfitx, hfity⟩
    refine ⟨by rw [hwidth.mpr hfitx, hheight.mpr hfity], setRect_inside v _ hx hy, ?_⟩
    refine ⟨?_, ?_, isShort_sideEnd hx, isShort_sideEnd hy⟩ <;> unfold IsShort <;> omega

theorem set_size_exact_small : ((⟨⟨3, 2, 9, 9⟩⟩ : ConsoleViewport).setSize ⟨80, 25⟩ ⟨120, 300⟩).2.size = ⟨80, 25⟩ :=
  ((set_size_exact_iff ⟨⟨3, 2, 9, 9⟩⟩ (by decide) (by decide) (by decide) (by decide) (by decide)).mpr (by decide)).1

/-- Ten columns from column 32766 on: the viewport is one column wide. -/
theorem set_size_wraps : (⟨⟨32766, 0, 32766, 0⟩⟩ : ConsoleViewport).rect.left < 32767 ∧
    ((⟨⟨32766, 0, 32766, 0⟩⟩ : ConsoleViewport).setSize ⟨10, 1⟩ ⟨32767, 1⟩).2.size = ⟨1, 1⟩ := by
  decide

/-! ## A new origin -/

/-- The viewport at another origin. -/
def movedTo (v : ConsoleViewport) (origin : Coord) : ConsoleViewport :=
  ⟨⟨origin.x, origin.y, origin.x + (v.rect.right - v.rect.left), origin.y + (v.rect.bottom - v.rect.top)⟩⟩

theorem size_movedTo (v : ConsoleViewport) (origin : Coord) : (v.movedTo origin).size = v.size := by
  unfold size movedTo
  dsimp only
  congr 2 <;> omega

/-- A side of a viewport in the buffer, at another start in the buffer. -/
theorem side_moved (hn : n ≤ 0x7FFF) (h : lo ≤ hi) (hfit : hi - lo < n) (start : Int)
    (hstart : 0 ≤ start ∧ start + (hi - lo) < n) :
    sideLength start (i16 (start + i16 (hi - lo + 1) - 1)) n = hi - lo + 1 ∧
      sideStart start (i16 (start + i16 (hi - lo + 1) - 1)) n = start := by
  have hend : i16 (start + i16 (hi - lo + 1) - 1) = start + (hi - lo) := by
    rw [i16_of_range (n := hi - lo + 1) (by omega) (by omega), i16_of_range (by omega) (by omega)]
    omega
  have hlen : sideLength start (start + (hi - lo)) n = hi - lo + 1 := by
    rw [sideLength_eq (by omega) (by omega)]
    omega
  rw [hend, sideStart_eq (by omega), hlen]
  exact ⟨rfl, clamp_of_mem (by omega) (by omega)⟩

theorem setOrigin_eq (h : v.Inside bufferSize) (hx : bufferSize.x ≤ 0x7FFF) (hy : bufferSize.y ≤ 0x7FFF) {origin : Coord}
    (ho : (v.movedTo origin).Inside bufferSize) : (v.setOrigin origin bufferSize).2 = v.movedTo origin := by
  obtain ⟨h1, h2, h3, h4, h5, h6⟩ := h
  obtain ⟨o1, o2, o3, o4, o5, o6⟩ := ho
  simp only [movedTo] at o1 o2 o3 o4 o5 o6
  obtain ⟨hw, hleft⟩ := side_moved hx h2 (by omega) origin.x (by omega)
  obtain ⟨hh, htop⟩ := side_moved hy h5 (by omega) origin.y (by omega)
  have hrect : (v.setOrigin origin bufferSize).2.rect = (v.movedTo origin).rect := by
    rw [setOrigin, setRect_eq]
    dsimp only [size]
    rw [hw, hleft, hh, htop, i16_of_range (by omega) (by omega), i16_of_range (by omega) (by omega)]
    unfold movedTo
    congr 1 <;> omega
  exact congrArg ConsoleViewport.mk hrect

/-- `set_rect` tells whether the rectangle has changed. -/
theorem setRect_fst (v : ConsoleViewport) (rect : SmallRect) (bufferSize : Coord) :
    (v.setRect rect bufferSize).1 = true ↔ (v.setRect rect bufferSize).2 ≠ v := by
  obtain ⟨r⟩ := v
  simp only [setRect, bne_iff_ne, ne_eq, ConsoleViewport.mk.injEq]
  exact not_congr eq_comm

/-! ## The cursor in the viewport -/

theorem contains_iff {position : Coord} : v.contains position = true ↔
    ((v.rect.left ≤ position.x ∧ position.x ≤ v.rect.right) ∧ v.rect.top ≤ position.y) ∧ position.y ≤ v.rect.bottom := by
  simp [contains]

/-- The first place of a side with the cursor at `c`, after the shortest move. -/
def snapSide (lo hi c : Int) : Int := if c < lo then c else if c > hi then i16 (lo + c - hi) else lo

theorem snapSide_spec (hlo : 0 ≤ lo) (h : lo ≤ hi) (hhi : hi < n) (hn : n ≤ 0x7FFF) {c : Int} (hc : 0 ≤ c ∧ c < n) :
    (0 ≤ snapSide lo hi c ∧ snapSide lo hi c + (hi - lo) < n) ∧
      (snapSide lo hi c ≤ c ∧ c ≤ snapSide lo hi c + (hi - lo)) ∧
      ∀ start : Int, start ≤ c ∧ c ≤ start + (hi - lo) → (snapSide lo hi c - lo).natAbs ≤ (start - lo).natAbs := by
  unfold snapSide
  split_ifs with h1 h2
  · exact ⟨by omega, by omega, fun start hs => by omega⟩
  · rw [i16_of_range (by omega) (by omega)]
    exact ⟨by omega, by omega, fun start hs => by omega⟩
  · exact ⟨by omega, by omega, fun start _ => by omega⟩

theorem snapToCursor_eq (v : ConsoleViewport) (cursor bufferSize : Coord) :
    v.snapToCursor cursor bufferSize = v.setOrigin
      ⟨snapSide v.rect.left v.rect.right cursor.x, snapSide v.rect.top v.rect.bottom cursor.y⟩ bufferSize := rfl

/-- `snap_to_cursor` keeps the size of the viewport and leaves it inside the
buffer with the cursor in it. No viewport of that size with the cursor in it is
nearer, on either axis, and the result tells whether the viewport has moved. -/
theorem snap_to_cursor_spec (h : v.Inside bufferSize) (hbuffer : IsShort bufferSize.x ∧ IsShort bufferSize.y)
    {cursor : Coord} (hx : 0 ≤ cursor.x ∧ cursor.x < bufferSize.x) (hy : 0 ≤ cursor.y ∧ cursor.y < bufferSize.y) :
    (v.snapToCursor cursor bufferSize).2.size = v.size ∧
      (v.snapToCursor cursor bufferSize).2.Inside bufferSize ∧
      (v.snapToCursor cursor bufferSize).2.contains cursor = true ∧
      (∀ origin : Coord, (v.movedTo origin).contains cursor = true →
        ((v.snapToCursor cursor bufferSize).2.rect.left - v.rect.left).natAbs ≤ (origin.x - v.rect.left).natAbs ∧
          ((v.snapToCursor cursor bufferSize).2.rect.top - v.rect.top).natAbs ≤ (origin.y - v.rect.top).natAbs) ∧
      ((v.snapToCursor cursor bufferSize).1 = true ↔ (v.snapToCursor cursor bufferSize).2 ≠ v) := by
  obtain ⟨⟨-, hbx⟩, -, hby⟩ := hbuffer
  obtain ⟨hinx, hcx, hminx⟩ := snapSide_spec h.left h.leftRight h.right (by omega) hx
  obtain ⟨hiny, hcy, hminy⟩ := snapSide_spec h.top h.topBottom h.bottom (by omega) hy
  have hw := h.leftRight
  have hh := h.topBottom
  have hmoved : (v.movedTo ⟨snapSide v.rect.left v.rect.right cursor.x,
      snapSide v.rect.top v.rect.bottom cursor.y⟩).Inside bufferSize := by
    constructor <;> simp only [movedTo] <;> omega
  rw [snapToCursor_eq, setOrigin_eq h (by omega) (by omega) hmoved]
  refine ⟨size_movedTo v _, hmoved, ?_, fun origin ho => ?_, ?_⟩
  · rw [contains_iff]
    dsimp only [movedTo]
    omega
  · rw [contains_iff] at ho
    dsimp only [movedTo] at ho
    exact ⟨hminx origin.x (by omega), hminy origin.y (by omega)⟩
  · rw [← setOrigin_eq h (by omega) (by omega) hmoved]
    exact setRect_fst v _ _

theorem snap_to_cursor_corner :
    ((⟨⟨10, 20, 89, 44⟩⟩ : ConsoleViewport).snapToCursor ⟨119, 0⟩ ⟨120, 300⟩).2.contains ⟨119, 0⟩ = true :=
  (snap_to_cursor_spec (v := ⟨⟨10, 20, 89, 44⟩⟩) ⟨by decide, by decide, by decide, by decide, by decide, by decide⟩
    (by decide) (by decide) (by decide)).2.2.1

end ConsoleViewport

end Corehost
