import Corehost.Row.Refine
import Corehost.Screen.Model

/-!
# The rows of a screen buffer in their order

* `lines s`: the rows in logical order, whatever the origin of the ring;
* `Sized s`: the rows and their widths agree with the size of the buffer;
* `Sized.lines_modifyRow`, `lines_fillRows`, `Sized.linearizeRows`: what the
  operations on rows do to the rows in order.
-/

namespace Corehost

open Lib Lib.Strip

namespace ScreenBuffer

def lines (s : ScreenBuffer) : List ScreenBufferRow := s.rows.rotate s.rowOrigin

/-- The rows and their widths agree with the size of the buffer. -/
structure Sized (s : ScreenBuffer) : Prop where
  width : 1 ≤ s.size.x ∧ s.size.x ≤ 0x7FFF
  height : 1 ≤ s.size.y ∧ s.size.y ≤ 0x7FFF
  count : s.rows.length = s.size.y.toNat
  origin : s.rowOrigin < s.rows.length
  rows : ∀ r ∈ s.rows, r.ShowsSome s.size.x.toNat

variable {s : ScreenBuffer} {f : ScreenBufferRow → ScreenBufferRow}

@[simp] theorem length_lines (s : ScreenBuffer) : s.lines.length = s.rows.length := List.length_rotate ..

theorem mem_lines {r : ScreenBufferRow} : r ∈ s.lines ↔ r ∈ s.rows := List.mem_rotate

theorem physicalRowIndex_lt (h : s.rows ≠ []) (y : Int) : s.physicalRowIndex y < s.rows.length := by
  have := List.length_pos_iff.mpr h
  rw [physicalRowIndex, if_neg (by omega)]
  exact Nat.mod_lt _ this

theorem Sized.rows_ne (h : s.Sized) : s.rows ≠ [] := by
  have := h.origin
  exact List.length_pos_iff.mp (by omega)

/-- Row `y` is element `y` of the rows in order. -/
theorem Sized.row_eq (h : s.Sized) {y : Int} (hy : y < s.size.y) :
    s.lines[y.toNat]? = some (s.row y) ∧ s.row y ∈ s.rows := by
  have hlen := h.count
  have hlt := physicalRowIndex_lt h.rows_ne y
  have hrow : s.rows[s.physicalRowIndex y]? = some (s.row y) := by
    rw [row, List.getD_eq_getElem?_getD, List.getElem?_eq_getElem hlt, Option.getD_some]
  refine ⟨?_, List.mem_of_getElem? hrow⟩
  rw [lines, List.getElem?_rotate (by omega), ← hrow, physicalRowIndex, if_neg (by omega), Nat.add_comm]

/-- The rows in order after one of them has been changed. -/
theorem Sized.lines_modifyRow (h : s.Sized) {y : Int} (hy : y < s.size.y) :
    (s.modifyRow y f).lines = s.lines.modify y.toNat f := by
  have hlen := h.count
  have := h.height
  rw [modifyRow, lines, physicalRowIndex, if_neg (by have := h.origin; omega)]
  exact rotate_modify f s.rows (by omega)

theorem Sized.modifyRow (h : s.Sized) (y : Int) (hf : ∀ r, r.ShowsSome s.size.x.toNat → (f r).ShowsSome s.size.x.toNat) :
    (s.modifyRow y f).Sized := by
  have hl : (s.modifyRow y f).rows.length = s.rows.length := List.length_modify ..
  refine ⟨h.width, h.height, hl.trans h.count, by rw [hl]; exact h.origin, fun r hr => ?_⟩
  obtain ⟨i, hi⟩ := List.getElem?_of_mem hr
  simp only [ScreenBuffer.modifyRow, List.getElem?_modify] at hi
  obtain ⟨r', hr', rfl⟩ := Option.map_eq_some_iff.mp hi
  have hmem := h.rows r' (List.mem_of_getElem? hr')
  split
  · exact hf r' hmem
  · exact hmem

/-- The rows in order, as they are stored. -/
theorem Sized.linearizeRows (h : s.Sized) :
    s.linearizeRows.Sized ∧ s.linearizeRows.rows = s.lines ∧ s.linearizeRows.rowOrigin = 0 ∧
      s.linearizeRows.size = s.size ∧ s.linearizeRows.viewport = s.viewport ∧
      s.linearizeRows.scrollSavedRows = s.scrollSavedRows := by
  rw [ScreenBuffer.linearizeRows]
  split
  · rename_i h0
    have h0 := h0.resolve_right h.rows_ne
    exact ⟨h, by rw [lines, h0, List.rotate_zero], h0, rfl, rfl, rfl⟩
  · refine ⟨⟨h.width, h.height, (List.length_rotate ..).trans h.count, ?_, fun r hr => h.rows r (List.mem_rotate.mp hr)⟩,
      rfl, rfl, rfl, rfl, rfl⟩
    rw [List.length_rotate]
    exact Nat.lt_of_le_of_lt (Nat.zero_le _) h.origin

theorem lines_of_origin (h : s.rowOrigin = 0) : s.lines = s.rows := by rw [lines, h, List.rotate_zero]

/-! ## Filled rows -/

/-- A row that has been reset to one character and one attribute. -/
def Filled (w : Nat) (cp : Char32) (attr : UInt16) (r : ScreenBufferRow) : Prop :=
  ∃ r₀ : ScreenBufferRow, r = r₀.resetFill w cp (.ofWord attr)

theorem Filled.shows {w : Nat} {cp : Char32} {attr : UInt16} {r : ScreenBufferRow} (h : Filled w cp attr r) (hw : w ≤ 0x7FFF) :
    r.Shows w (List.replicate w ⟨cp, false⟩) (List.replicate w (.ofWord attr)) := by
  obtain ⟨r₀, rfl⟩ := h
  exact ScreenBufferRow.Shows.resetFill r₀ hw cp _

theorem Filled.visible_eq {w : Nat} {cp : Char32} {attr : UInt16} {r : ScreenBufferRow} (h : Filled w cp attr r)
    (hw : w ≤ 0x7FFF) : r.visible = List.replicate w ⟨[cp], 1, .ofWord attr⟩ := by
  rw [(h.shows hw).visible_eq]
  simp [ScreenBufferRow.toCell, ScreenBufferRow.halfCols]

theorem Sized.u16_width (h : s.Sized) : u16 s.size.x.toNat = s.size.x.toNat := by
  have := h.width
  exact u16_of_lt (by omega)

/-- What `_fill_row` does with a row. -/
abbrev blank (s : ScreenBuffer) (cp : Char32) (attr : UInt16) (r : ScreenBufferRow) : ScreenBufferRow :=
  r.resetFill (u16 s.size.x.toNat) cp (.ofWord attr)

theorem fillRows_eq (cp : Char32) (attr : UInt16) : ∀ (n first : Nat) (s : ScreenBuffer), s.rows ≠ [] →
    s.fillRows first n cp attr = { s with
      rows := (List.range' first n).foldl (fun xs i => xs.modify ((s.rowOrigin + i) % xs.length) (s.blank cp attr)) s.rows }
  | 0, _, _, _ => rfl
  | n + 1, first, s, h => by
    have hstep : s.fillRows first (n + 1) cp attr = (s.fillRow first cp attr).fillRows (first + 1) n cp attr := rfl
    have hrow : (s.fillRow first cp attr).rows = s.rows.modify ((s.rowOrigin + first) % s.rows.length) (s.blank cp attr) := by
      rw [fillRow, ScreenBuffer.modifyRow, physicalRowIndex, if_neg (by simpa using h), Int.toNat_natCast]
    have hne : (s.fillRow first cp attr).rows ≠ [] := by simpa [hrow, ← List.length_eq_zero_iff] using h
    rw [hstep, fillRows_eq cp attr n (first + 1) _ hne, hrow, List.range'_succ, List.foldl_cons]
    rfl

/-- The rows in order after some of them have been filled. -/
theorem lines_fillRows (cp : Char32) (attr : UInt16) {n first : Nat} (hne : s.rows ≠ []) (hfit : first + n ≤ s.rows.length) :
    (s.fillRows first n cp attr).lines = modifyRange (s.blank cp attr) s.lines first n := by
  rw [fillRows_eq cp attr n first s hne, lines]
  exact rotate_modifyRange _ n s.rows s.rowOrigin first hfit

theorem fillRows_frame (cp : Char32) (attr : UInt16) {n first : Nat} (hne : s.rows ≠ []) :
    (s.fillRows first n cp attr).size = s.size ∧ (s.fillRows first n cp attr).viewport = s.viewport ∧
      (s.fillRows first n cp attr).rowOrigin = s.rowOrigin ∧ (s.fillRows first n cp attr).rows.length = s.rows.length := by
  rw [fillRows_eq cp attr n first s hne]
  refine ⟨rfl, rfl, rfl, ?_⟩
  exact List.foldlRecOn (motive := fun xs : List ScreenBufferRow => xs.length = s.rows.length) _ _ rfl
    fun xs hx i _ => (List.length_modify ..).trans hx

end ScreenBuffer

end Corehost
