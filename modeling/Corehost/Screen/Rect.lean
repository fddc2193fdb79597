import Corehost.Row.Copy
import Corehost.Screen.History

/-!
# Scrolling a rectangle, cell by cell

* `Moves`, `Written`: the cells of the source that move, and the cells that a
  scroll writes;
* `expectedCell`: every cell after the rectangle has been moved;
* `cellAt_scrollRect`: every cell as the last path of `scroll` leaves it;
* `scroll_exact_iff`: the two agree unless a wide glyph is cut or has two
  attributes.
-/

namespace Corehost.ScreenBuffer

open Lib Lib.Strip ScreenBufferRow

variable {s : ScreenBuffer} {cp : Char32} {attr : UInt16} {dx dy : Int} {sr clip : SmallRect} {w : Nat}

def cellAt (s : ScreenBuffer) (x y : Int) : Cell := (s.row y).cellAt x.toNat

/-! ## Filling a rectangle -/

theorem visible_fillColumns (cp : Char32) (attr : UInt16) : ∀ (n a : Nat) {r : ScreenBufferRow}, r.ShowsSome w →
    w ≤ 0x7FFF → a + n ≤ w →
    ((List.range' a n).foldl (fun r x => r.writeGlyph (u16 x) [cp] 1 (.ofWord attr)) r).visible =
      overwriteCells r.visible a (List.replicate n ⟨[cp], 1, .ofWord attr⟩)
  | 0, a, r, _, _, _ => by simp [overwriteCells]
  | n + 1, a, r, hr, hw, hn => by
    have hstep := visible_fillColumns cp attr n (a + 1) (hr.writeGlyph a cp (.inl rfl) (.ofWord attr)) hw (by omega)
    rw [List.range'_succ, List.foldl_cons, u16_of_lt (by omega), hstep, visible_writeNarrow hr (by omega)]
    exact overwriteCells_append (by simp [Closed]) (by simp)

theorem cellAt_fillColumns {r : ScreenBufferRow} (hr : r.ShowsSome w) {a n c : Nat} (hn : a + n ≤ w) (hpos : 0 < n)
    (hc : c < w) :
    (fillColumns cp attr a (a + n - 1) r).cellAt c =
      if a ≤ c ∧ c < a + n then ⟨[cp], 1, .ofWord attr⟩
      else if c + 1 = a ∧ (r.cellAt c).cols = 2 ∨ c = a + n ∧ (r.cellAt c).cols = 0 then (r.cellAt c).cut
      else r.cellAt c := by
  have hx := (acts_fillColumns (w := w) cp attr a (a + n - 1)).showsSome hr
  obtain ⟨gs, as, hrs⟩ := id hr
  obtain ⟨xgs, xas, hxs⟩ := id hx
  have hvis := visible_fillColumns cp attr n a hr hrs.width_le hn
  have heq : fillColumns cp attr a (a + n - 1) r =
      (List.range' a n).foldl (fun r x => r.writeGlyph (u16 x) [cp] 1 (.ofWord attr)) r := by
    rw [fillColumns, show ((a : Int) + n - 1 - a + 1).toNat = n by omega, Int.toNat_natCast]
  have hold := getElem?_visible r (show c < r.width by rw [hrs.width_eq]; exact hc)
  have hnew := getElem?_visible (fillColumns cp attr a (a + n - 1) r) (show c < _ by rw [hxs.width_eq]; exact hc)
  rw [← heq] at hvis
  rw [hvis, getElem?_overwriteCells, hold, Option.map_some, Option.some_inj] at hnew
  have hne : List.replicate n (⟨[cp], 1, .ofWord attr⟩ : Cell) ≠ [] := by simp; omega
  rw [← hnew, overwriteCell, List.length_replicate]
  simp only [ne_eq, hne, not_false_eq_true, true_and]
  split_ifs <;> first | omega | rfl | skip
  rw [List.getD_eq_getElem?_getD, List.getElem?_replicate_of_lt (by omega), Option.getD_some]

theorem foldl_modifyRow {f : ScreenBufferRow → ScreenBufferRow} : ∀ (n a : Nat) (s : ScreenBuffer), s.rowOrigin = 0 →
    a + n ≤ s.rows.length →
    (List.range' a n).foldl (fun s (y : Nat) => s.modifyRow y f) s = { s with rows := modifyRange f s.rows a n }
  | 0, _, _, _, _ => rfl
  | n + 1, a, s, h0, hn => by
    have hrow : s.modifyRow a f = { s with rows := s.rows.modify a f } := by
      rw [modifyRow, physicalRowIndex, if_neg (by omega), h0, Nat.zero_add, Int.toNat_natCast, Nat.mod_eq_of_lt (by omega)]
    have hlen : (s.rows.modify a f).length = s.rows.length := List.length_modify ..
    have ih := foldl_modifyRow (f := f) n (a + 1) { s with rows := s.rows.modify a f } h0 (by simp only [hlen]; omega)
    rw [List.range'_succ, List.foldl_cons, hrow, ih]
    rfl

/-- A rectangle inside the buffer. -/
structure Within (r : SmallRect) (size : Coord) : Prop where
  left : 0 ≤ r.left
  top : 0 ≤ r.top
  right : r.right < size.x
  bottom : r.bottom < size.y

theorem clampRect_of_within {r : SmallRect} (h : Within r s.size) : s.clampRect r = r := by
  obtain ⟨h1, h2, h3, h4⟩ := h
  unfold clampRect
  rw [if_neg (by omega), if_neg (by omega), if_neg (by omega), if_neg (by omega)]

/-- What `_fill` does with row `i`. -/
def fillStep (fr : SmallRect) (cp : Char32) (attr : UInt16) (i : Int) (r : ScreenBufferRow) : ScreenBufferRow :=
  if (fr.left ≤ fr.right ∧ fr.top ≤ i) ∧ i ≤ fr.bottom then fillColumns cp attr fr.left fr.right r else r

theorem getElem?_fillRect (h : s.Sized) (h0 : s.rowOrigin = 0) {fr : SmallRect} (hfr : Within fr s.size) (i : Nat) :
    (s.fillRect fr cp attr).rows[i]? = s.rows[i]?.map (fillStep fr cp attr i) := by
  have hcount := h.count
  obtain ⟨h1, h2, h3, h4⟩ := id hfr
  unfold fillRect
  dsimp only
  rw [clampRect_of_within hfr]
  split
  · rename_i hv
    simp only [SmallRect.isValid, Bool.and_eq_false_iff, decide_eq_false_iff_not] at hv
    rw [Option.map_congr (g := id) fun r _ => by rw [fillStep, if_neg (by omega)]; rfl]
    simp
  · rename_i hv
    simp only [SmallRect.isValid, Bool.not_eq_false, Bool.and_eq_true, decide_eq_true_eq] at hv
    rw [foldl_modifyRow _ _ s h0 (by omega), getElem?_modifyRange]
    split
    · exact Option.map_congr fun r _ => by rw [fillStep, if_pos (by omega)]
    · rw [Option.map_congr (g := id) fun r _ => by rw [fillStep, if_neg (by omega)]; rfl]
      simp

theorem getElem?_foldl_modify {α : Type*} (f : Nat → α → α) (a : Nat) : ∀ (n : Nat) (xs : List α) (i : Nat),
    ((List.range n).foldl (fun xs y => xs.modify (a + y) (f y)) xs)[i]? =
      if a ≤ i ∧ i < a + n then xs[i]?.map (f (i - a)) else xs[i]?
  | 0, xs, i => by rw [if_neg (by omega)]; rfl
  | n + 1, xs, i => by
    rw [List.range_succ, List.foldl_append, List.foldl_cons, List.foldl_nil, List.getElem?_modify,
      getElem?_foldl_modify f a n xs i]
    by_cases h : a + n = i
    · rw [if_neg (by omega), if_pos (by omega), show i - a = n by omega]
      simp [h]
    · by_cases hin : a ≤ i ∧ i < a + n
      · rw [if_pos hin, if_pos (by omega)]
        simp [h]
      · rw [if_neg hin, if_neg (by omega)]
        simp [h]

/-- What the last path of `scroll` copies to row `i` from the saved rows. -/
def copyStep (s : ScreenBuffer) (sr clip : SmallRect) (dx dy : Int) (attr : UInt16) (r₀ : ScreenBufferRow) (i : Int)
    (r : ScreenBufferRow) : ScreenBufferRow :=
  let sl := max sr.left (clip.left - dx)
  let srr := min sr.right (clip.right - dx)
  if (sl ≤ srr ∧ max sr.top (clip.top - dy) + dy ≤ i) ∧ i ≤ min sr.bottom (clip.bottom - dy) + dy then
    r.copyFrom (savedColumns s.size.x.toNat (.ofWord attr) (s.rows.getD (i - dy).toNat {}) sl.toNat (srr - sl + 1).toNat r₀) 0
      (sl + dx).toNat (srr - sl + 1).toNat
  else r

/-- The part of the source that is inside the clip. -/
def fillPart (sr clip : SmallRect) : SmallRect :=
  ⟨max sr.left clip.left, max sr.top clip.top, min sr.right clip.right, min sr.bottom clip.bottom⟩

theorem getElem?_scrollRect (dx dy : Int) (cp : Char32) (attr : UInt16) (h : s.Sized)
    (h0 : s.rowOrigin = 0) (hsr : Within sr s.size) (hclip : Within clip s.size) :
    ∃ r₀ : Nat → ScreenBufferRow, ∀ i : Nat, (s.scrollRect sr clip dx dy cp attr).rows[i]? =
      s.rows[i]?.map fun r => copyStep s sr clip dx dy attr (r₀ i) i (fillStep (fillPart sr clip) cp attr i r) := by
  have hwidth := h.width
  have hheight := h.height
  have hcount := h.count
  obtain ⟨a1, a2, a3, a4⟩ := hsr
  obtain ⟨b1, b2, b3, b4⟩ := hclip
  have hfr : Within (fillPart sr clip) s.size := ⟨by simp only [fillPart]; omega, by simp only [fillPart]; omega,
    by simp only [fillPart]; omega, by simp only [fillPart]; omega⟩
  unfold scrollRect copyStep
  dsimp only
  generalize hst : max sr.top (clip.top - dy) = st
  generalize hsb : min sr.bottom (clip.bottom - dy) = sb
  generalize hsl : max sr.left (clip.left - dx) = sl
  generalize hsrr : min sr.right (clip.right - dx) = srr
  change ∃ r₀ : Nat → ScreenBufferRow, _
  rw [show SmallRect.mk (max sr.left clip.left) (max sr.top clip.top) (min sr.right clip.right) (min sr.bottom clip.bottom) =
    fillPart sr clip from rfl]
  generalize fillPart sr clip = fr at hfr ⊢
  -- the fill is the same whatever rows are saved
  have hfill (S : List ScreenBufferRow) (i : Nat) :
      (if fr.isValid then { s with scrollSavedRows := S }.fillRect fr cp attr else { s with scrollSavedRows := S }).rows[i]? =
        s.rows[i]?.map (fillStep fr cp attr i) := by
    split
    · exact getElem?_fillRect (s := { s with scrollSavedRows := S }) ⟨h.width, h.height, h.count, h.origin, h.rows⟩ h0 hfr i
    · rename_i hv
      simp only [SmallRect.isValid, Bool.and_eq_true, decide_eq_true_eq] at hv
      rw [Option.map_congr (g := id) fun r _ => by rw [fillStep, if_neg (by omega)]; rfl]
      simp
  by_cases hm : (sl ≤ srr && st ≤ sb) = true
  · simp only [if_pos hm]
    simp only [Bool.and_eq_true, decide_eq_true_eq] at hm
    obtain ⟨old, hold⟩ : ∃ old, old = Lib.resize s.scrollSavedRows (sb - st + 1).toNat {} := ⟨_, rfl⟩
    rw [← hold]
    have holdlen : old.length = (sb - st + 1).toNat := by rw [hold, length_resize]
    obtain ⟨S, hS⟩ : ∃ S, S = old.mapIdx fun (y : Nat) r =>
        (r.resetFill (u16 s.size.x.toNat) 0x20 (.ofWord attr)).copyFrom (s.rows.getD (st + y).toNat {}) (u16 sl.toNat) 0
          (u16 (srr - sl + 1).toNat) := ⟨_, rfl⟩
    have hsaved : (if fr.isValid then { s with scrollSavedRows := S }.fillRect fr cp attr
        else { s with scrollSavedRows := S }).scrollSavedRows = S := by
      split
      · exact (fillRect_frame fr cp attr).2.2
      · rfl
    refine ⟨fun i => old.getD (i - (st + dy).toNat) {}, fun i => ?_⟩
    rw [← hS, foldl_stored (fun y => (st + dy + y).toNat) fun saved y r =>
      r.copyFrom (saved.getD y {}) 0 (u16 (sl + dx).toNat) (u16 (srr - sl + 1).toNat), hsaved]
    have hat : ∀ y : Nat, (st + dy + y).toNat = (st + dy).toNat + y := fun y => by omega
    simp only [hat]
    rw [getElem?_foldl_modify fun y (r : ScreenBufferRow) =>
        r.copyFrom (S.getD y {}) 0 (u16 (sl + dx).toNat) (u16 (srr - sl + 1).toNat), hfill,
      Option.map_map]
    split
    · refine Option.map_congr fun r _ => ?_
      rw [Function.comp_apply, if_pos (by omega)]
      have hget : S.getD (i - (st + dy).toNat) {} = savedColumns s.size.x.toNat (.ofWord attr) (s.rows.getD (i - dy).toNat {})
          sl.toNat (srr - sl + 1).toNat (old.getD (i - (st + dy).toNat) {}) := by
        rw [hS, List.getD_eq_getElem?_getD, List.getElem?_mapIdx, List.getElem?_eq_getElem (by omega), Option.map_some,
          Option.getD_some, List.getD_eq_getElem?_getD (l := old), List.getElem?_eq_getElem (by omega), Option.getD_some,
          u16_of_lt (show s.size.x.toNat < 0x10000 by omega), u16_of_lt (show sl.toNat < 0x10000 by omega),
          u16_of_lt (show (srr - sl + 1).toNat < 0x10000 by omega),
          show (st + ((i - (st + dy).toNat : Nat) : Int)).toNat = ((i : Int) - dy).toNat by omega]
      rw [hget, u16_of_lt (show (sl + dx).toNat < 0x10000 by omega), u16_of_lt (show (srr - sl + 1).toNat < 0x10000 by omega)]
    · exact Option.map_congr fun r _ => by rw [if_neg (by omega)]
  · simp only [if_neg hm]
    simp only [Bool.and_eq_true, decide_eq_true_eq] at hm
    refine ⟨fun _ => {}, fun i => ?_⟩
    have hfill' := hfill s.scrollSavedRows i
    rw [hfill']
    exact Option.map_congr fun r _ => by rw [if_neg (by omega)]

theorem scrollRect_frame (s : ScreenBuffer) (sr clip : SmallRect) (dx dy : Int) (cp : Char32) (attr : UInt16) :
    (s.scrollRect sr clip dx dy cp attr).size = s.size ∧
    (s.scrollRect sr clip dx dy cp attr).rowOrigin = s.rowOrigin := by
  have hfill (b : ScreenBuffer) (fr : SmallRect) : (if fr.isValid then b.fillRect fr cp attr else b).size = b.size ∧
      (if fr.isValid then b.fillRect fr cp attr else b).rowOrigin = b.rowOrigin := by
    split
    · exact ⟨(fillRect_frame fr cp attr).1, (fillRect_frame fr cp attr).2.1⟩
    · exact ⟨rfl, rfl⟩
  unfold scrollRect
  dsimp only
  split
  · rw [foldl_stored (fun y => (max sr.top (clip.top - dy) + dy + y).toNat) fun saved y (r : ScreenBufferRow) =>
      r.copyFrom (saved.getD y {}) 0 (u16 (max sr.left (clip.left - dx) + dx).toNat)
        (u16 (min sr.right (clip.right - dx) - max sr.left (clip.left - dx) + 1).toNat)]
    exact hfill _ _
  · exact hfill _ _

theorem row_of_origin (h0 : s.rowOrigin = 0) {y : Int} (hy : y.toNat < s.rows.length) :
    s.rows[y.toNat]? = some (s.row y) := by
  rw [row, physicalRowIndex, if_neg (by omega), h0, Nat.zero_add, Nat.mod_eq_of_lt hy, List.getD_eq_getElem?_getD,
    List.getElem?_eq_getElem hy, Option.getD_some]

/-! ## The cells after a scroll -/

/-- The cell of the source at `x`, `y` moves. -/
def Moves (sr clip : SmallRect) (dx dy x y : Int) : Prop := sr.Has x y ∧ clip.Has (x + dx) (y + dy)

/-- The scroll writes the cell at `x`, `y`. -/
def Written (sr clip : SmallRect) (dx dy x y : Int) : Prop :=
  Moves sr clip dx dy (x - dx) (y - dy) ∨ sr.Has x y ∧ clip.Has x y

instance (x y : Int) : Decidable (Moves sr clip dx dy x y) := inferInstanceAs (Decidable (_ ∧ _))

instance (x y : Int) : Decidable (Written sr clip dx dy x y) := inferInstanceAs (Decidable (_ ∨ _))

/-- What the cell at `x`, `y` of the source is after it has moved: a glyph of
which only one half moves leaves a space. -/
def movedCellAt (s : ScreenBuffer) (sr clip : SmallRect) (dx dy x y : Int) : Cell :=
  let cell := s.cellAt x y
  if cell.cols = 2 ∧ ¬ Moves sr clip dx dy (x + 1) y ∨ cell.cols = 0 ∧ ¬ Moves sr clip dx dy (x - 1) y then cell.cut
  else cell

/-- The cell at `x`, `y` after a scroll. -/
def expectedCell (s : ScreenBuffer) (sr clip : SmallRect) (dx dy : Int) (cp : Char32) (attr : UInt16) (x y : Int) : Cell :=
  if Moves sr clip dx dy (x - dx) (y - dy) then s.movedCellAt sr clip dx dy (x - dx) (y - dy)
  else if sr.Has x y ∧ clip.Has x y then ⟨[cp], 1, .ofWord attr⟩
  else
    let cell := s.cellAt x y
    if cell.cols = 2 ∧ Written sr clip dx dy (x + 1) y ∨ cell.cols = 0 ∧ Written sr clip dx dy (x - 1) y then cell.cut
    else cell

/-- The second half of a moved glyph has the attribute that it is copied with,
and no glyph ends behind the cells that move. -/
def KeepsCell (s : ScreenBuffer) (sr clip : SmallRect) (dx dy : Int) (attr : UInt16) (x y : Int) : Prop :=
  ((s.cellAt x y).cols = 2 → Moves sr clip dx dy (x + 1) y ∨ x + dx = s.size.x - 1 ∧ (s.cellAt x y).glyph = [0x20]) ∧
  ((s.cellAt x y).cols = 0 →
    (s.cellAt x y).attr = if Moves sr clip dx dy (x - 1) y then (s.cellAt (x - 1) y).attr else .ofWord attr)

theorem cellAt_scrollRect (dx dy : Int) (cp : Char32) (attr : UInt16)
    (h : s.Sized) (h0 : s.rowOrigin = 0) (hsr : Within sr s.size) (hclip : Within clip s.size)
    {y : Int} (hy : 0 ≤ y ∧ y < s.size.y) (x : Int) : ∃ r₀ : ScreenBufferRow,
    (s.scrollRect sr clip dx dy cp attr).cellAt x y =
      (copyStep s sr clip dx dy attr r₀ y (fillStep (fillPart sr clip) cp attr y (s.row y))).cellAt x.toNat := by
  have hcount := h.count
  obtain ⟨hsize, horigin⟩ := scrollRect_frame s sr clip dx dy cp attr
  obtain ⟨r₀, hrows⟩ := getElem?_scrollRect dx dy cp attr h h0 hsr hclip
  have hrow := hrows y.toNat
  rw [row_of_origin h0 (by omega), Option.map_some, Int.toNat_of_nonneg hy.1] at hrow
  have hlt := (List.getElem?_eq_some_iff.mp hrow).1
  rw [row_of_origin (horigin.trans h0) hlt, Option.some_inj] at hrow
  exact ⟨r₀ y.toNat, by rw [cellAt, hrow]⟩

theorem showsSome_row (h : s.Sized) {y : Int} (hy : y < s.size.y) : (s.row y).ShowsSome s.size.x.toNat :=
  h.rows _ (h.row_eq hy).2

theorem showsSome_fillStep {fr : SmallRect} {i : Int} {r : ScreenBufferRow} (hr : r.ShowsSome w) :
    (fillStep fr cp attr i r).ShowsSome w := by
  unfold fillStep
  split
  · exact (acts_fillColumns cp attr _ _).showsSome hr
  · exact hr

theorem cellAt_fillStep (cp : Char32) (attr : UInt16) (fr : SmallRect) (y : Int) {r : ScreenBufferRow} (hr : r.ShowsSome w)
    (hfr : 0 ≤ fr.left) (hfr' : fr.right < w) {c : Nat} (hc : c < w) :
    (fillStep fr cp attr y r).cellAt c =
      if fr.Has c y then ⟨[cp], 1, .ofWord attr⟩
      else if fr.Has (c + 1) y ∧ (r.cellAt c).cols = 2 ∨ fr.Has (c - 1) y ∧ (r.cellAt c).cols = 0 then (r.cellAt c).cut
      else r.cellAt c := by
  unfold fillStep
  by_cases hrow : (fr.left ≤ fr.right ∧ fr.top ≤ y) ∧ y ≤ fr.bottom
  · rw [if_pos hrow]
    obtain ⟨a, ha⟩ := Int.eq_ofNat_of_zero_le hfr
    obtain ⟨n, hn⟩ := Int.eq_ofNat_of_zero_le (show 0 ≤ fr.right - fr.left + 1 by omega)
    have hright : fr.right = a + n - 1 := by omega
    rw [ha, hright, cellAt_fillColumns hr (by omega) (by omega) hc]
    have e1 : fr.Has c y ↔ a ≤ c ∧ c < a + n := by simp only [SmallRect.Has]; omega
    by_cases hin : a ≤ c ∧ c < a + n
    · rw [if_pos hin, if_pos (e1.mpr hin)]
    · have e2 : fr.Has (c + 1) y ↔ c + 1 = a := by simp only [SmallRect.Has]; omega
      have e3 : fr.Has (c - 1) y ↔ c = a + n := by simp only [SmallRect.Has]; omega
      rw [if_neg hin, if_neg (fun h => hin (e1.mp h))]
      simp only [e2, e3]
  · have hno (z : Int) : ¬ fr.Has z y := by simp only [SmallRect.Has]; omega
    rw [if_neg hrow, if_neg (hno _), if_neg (by simp [hno])]

section Copy

variable {r r₀ : ScreenBufferRow} {x y : Int}

theorem columns_le {w sl srr : Int} (h0 : 0 ≤ sl) (hl : sl ≤ srr) (hw : srr < w) :
    sl.toNat + (srr - sl + 1).toNat ≤ w.toNat := by
  omega

/-- Where a moved cell is among the columns that are saved and copied. -/
theorem moved_index {w sl srr : Int} (h0 : 0 ≤ sl) (hl : sl ≤ x) (hr : x ≤ srr) (hd : 0 ≤ sl + dx) (hw : srr + dx < w) :
    (sl + dx).toNat + (srr - sl + 1).toNat ≤ w.toNat ∧
      ((sl + dx).toNat ≤ (x + dx).toNat ∧ (x + dx).toNat < (sl + dx).toNat + (srr - sl + 1).toNat) ∧
      sl.toNat + ((x + dx).toNat - (sl + dx).toNat) = x.toNat ∧ ((x + dx).toNat - (sl + dx).toNat = 0 ↔ x = sl) ∧
      ((x + dx).toNat - (sl + dx).toNat + 1 = (srr - sl + 1).toNat ∧ (srr - sl + 1).toNat = w.toNat - (sl + dx).toNat ↔
        x = srr ∧ x + dx = w - 1) := by
  obtain ⟨i, rfl⟩ : ∃ i : Nat, x = sl + i := ⟨(x - sl).toNat, by omega⟩
  obtain ⟨n, rfl⟩ : ∃ n : Nat, srr = sl + n := ⟨(srr - sl).toNat, by omega⟩
  exact ⟨by omega, by omega, by omega, by omega, by omega⟩

/-- A moved cell, as it is copied. -/
theorem cellAt_copyStep_moved (h : s.Sized) (h0 : s.rowOrigin = 0) (hsr : Within sr s.size) (hclip : Within clip s.size)
    (hr : r.ShowsSome s.size.x.toNat) (hm : Moves sr clip dx dy x y) :
    (copyStep s sr clip dx dy attr r₀ (y + dy) r).cellAt (x + dx).toNat =
      if (s.cellAt x y).cols = 0 then
        if Moves sr clip dx dy (x - 1) y then { s.cellAt x y with attr := (s.cellAt (x - 1) y).attr }
        else ⟨[0x20], 1, .ofWord attr⟩
      else if (s.cellAt x y).cols = 2 ∧ ¬ Moves sr clip dx dy (x + 1) y ∧ x + dx = s.size.x - 1 then
        { s.cellAt x y with cols := 1 }
      else s.cellAt x y := by
  have hwidth := h.width
  have hcount := h.count
  obtain ⟨a1, a2, a3, a4⟩ := hsr
  obtain ⟨b1, b2, b3, b4⟩ := hclip
  obtain ⟨⟨⟨m1, m2⟩, m3, m4⟩, ⟨m5, m6⟩, m7, m8⟩ := id hm
  have hleft : Moves sr clip dx dy (x - 1) y ↔ x ≠ max sr.left (clip.left - dx) := by
    simp only [Moves, SmallRect.Has]; omega
  have hright : Moves sr clip dx dy (x + 1) y ↔ x ≠ min sr.right (clip.right - dx) := by
    simp only [Moves, SmallRect.Has]; omega
  unfold copyStep
  dsimp only
  rw [if_pos (by omega)]
  have hsrc : s.rows.getD (y + dy - dy).toNat {} = s.row y := by
    rw [List.getD_eq_getElem?_getD, show y + dy - dy = y by omega, row_of_origin h0 (by omega), Option.getD_some]
  rw [hsrc]
  have h1 : 0 ≤ max sr.left (clip.left - dx) := by omega
  have h2 : max sr.left (clip.left - dx) ≤ x := by omega
  have h3 : x ≤ min sr.right (clip.right - dx) := by omega
  have h4 : 0 ≤ max sr.left (clip.left - dx) + dx := by omega
  have h5 : min sr.right (clip.right - dx) + dx < s.size.x := by omega
  have h6 : min sr.right (clip.right - dx) < s.size.x := by omega
  generalize max sr.left (clip.left - dx) = sl at hleft h1 h2 h4 ⊢
  generalize min sr.right (clip.right - dx) = srr at hright h3 h5 h6 ⊢
  obtain ⟨hd, hin, hi, hi0, hend⟩ := moved_index h1 h2 h3 h4 h5
  have hmove := (cellAt_moveColumns (s := sl.toNat) (d := (sl + dx).toNat) (n := (srr - sl + 1).toNat) hr
    (showsSome_row h (show y < s.size.y by omega)) (.ofWord attr) (columns_le h1 (h2.trans h3) h6) hd r₀
    (hin.2.trans_le hd)).1
  rw [hmove hin, movedCell]
  have hprev : x.toNat - 1 = (x - 1).toNat := by omega
  have hattr : ((s.row y).cellAt (x - 1).toNat).attr = (s.row y).attrAt (x.toNat - 1) := by rw [hprev]; rfl
  simp only [savedCell, hi, hi0, hend, hleft, hright, ne_eq, not_not, cellAt, hattr]
  generalize (s.row y).cellAt x.toNat = cell
  by_cases hz : cell.cols = 0
  · by_cases hx : x = sl
    · simp only [if_pos hz, if_pos hx, if_neg (not_not.mpr hx)]
      rfl
    · simp only [if_neg hx, if_pos hx, hz]
      rfl
  · simp only [if_neg hz]

/-- A cell that nothing moves to, after the fill. -/
theorem cellAt_copyStep_unmoved (h : s.Sized) (h0 : s.rowOrigin = 0) (hsr : Within sr s.size) (hclip : Within clip s.size)
    (hr : r.ShowsSome s.size.x.toNat) (hx : 0 ≤ x ∧ x < s.size.x) (hm : ¬ Moves sr clip dx dy (x - dx) (y - dy))
    (hkeep : ∀ u, Moves sr clip dx dy u (y - dy) → s.KeepsCell sr clip dx dy attr u (y - dy)) :
    (copyStep s sr clip dx dy attr r₀ y r).cellAt x.toNat =
      if (r.cellAt x.toNat).cols = 2 ∧ Moves sr clip dx dy (x + 1 - dx) (y - dy) ∨
          (r.cellAt x.toNat).cols = 0 ∧ Moves sr clip dx dy (x - 1 - dx) (y - dy) then (r.cellAt x.toNat).cut
      else r.cellAt x.toNat := by
  have hwidth := h.width
  have hcount := h.count
  obtain ⟨a1, a2, a3, a4⟩ := hsr
  obtain ⟨b1, b2, b3, b4⟩ := hclip
  have hiff (u : Int) : Moves sr clip dx dy u (y - dy) ↔ (max sr.left (clip.left - dx) ≤ u ∧ u ≤ min sr.right (clip.right - dx)) ∧
      max sr.top (clip.top - dy) + dy ≤ y ∧ y ≤ min sr.bottom (clip.bottom - dy) + dy := by
    simp only [Moves, SmallRect.Has]; omega
  simp only [hiff] at hm hkeep ⊢
  have hsl : 0 ≤ max sr.left (clip.left - dx) + dx := by omega
  have hsl' : 0 ≤ max sr.left (clip.left - dx) := by omega
  have hsr' : min sr.right (clip.right - dx) < s.size.x := by omega
  have hsrd : min sr.right (clip.right - dx) + dx < s.size.x := by omega
  have hst : 0 ≤ max sr.top (clip.top - dy) := by omega
  have hsb : min sr.bottom (clip.bottom - dy) < s.size.y := by omega
  unfold copyStep
  dsimp only
  generalize hl : max sr.left (clip.left - dx) = sl at *
  generalize hrr : min sr.right (clip.right - dx) = srr at *
  by_cases hrow : (sl ≤ srr ∧ max sr.top (clip.top - dy) + dy ≤ y) ∧ y ≤ min sr.bottom (clip.bottom - dy) + dy
  · rw [if_pos hrow]
    have hsrc : s.rows.getD (y - dy).toNat {} = s.row (y - dy) := by
      rw [List.getD_eq_getElem?_getD, row_of_origin h0 (by omega), Option.getD_some]
    rw [hsrc]
    have hmove := (cellAt_moveColumns (s := sl.toNat) (d := (sl + dx).toNat) (n := (srr - sl + 1).toNat) hr
      (showsSome_row h (show y - dy < s.size.y by omega)) (.ofWord attr) (by omega) (by omega) r₀ (c := x.toNat) (by omega)).2
    have hlast : ((s.row (y - dy)).cellAt (sl.toNat + (srr - sl + 1).toNat - 1)).cols ≠ 2 ∨
        (sl + dx).toNat + (srr - sl + 1).toNat = s.size.x.toNat := by
      rw [show sl.toNat + (srr - sl + 1).toNat - 1 = srr.toNat by omega]
      by_cases h2 : (s.cellAt srr (y - dy)).cols = 2
      · rcases (hkeep srr (by omega)).1 h2 with hm' | ⟨hend, -⟩
        · rw [hiff] at hm'
          omega
        · right
          omega
      · exact .inl h2
    rw [hmove (.inr hlast) (by omega)]
    have e1 : x.toNat + 1 = (sl + dx).toNat ↔ (sl ≤ x + 1 - dx ∧ x + 1 - dx ≤ srr) ∧
        max sr.top (clip.top - dy) + dy ≤ y ∧ y ≤ min sr.bottom (clip.bottom - dy) + dy := by omega
    have e2 : x.toNat = (sl + dx).toNat + (srr - sl + 1).toNat ↔ (sl ≤ x - 1 - dx ∧ x - 1 - dx ≤ srr) ∧
        max sr.top (clip.top - dy) + dy ≤ y ∧ y ≤ min sr.bottom (clip.bottom - dy) + dy := by omega
    have hn : 0 < (srr - sl + 1).toNat := by omega
    simp only [hn, true_and, ← e1, ← e2]
    split_ifs <;> first | rfl | omega
  · rw [if_neg hrow, if_neg (by omega)]

end Copy

/-! ## The two agree -/

theorem has_fillPart (x y : Int) : (fillPart sr clip).Has x y ↔ sr.Has x y ∧ clip.Has x y := by
  simp only [fillPart, SmallRect.Has]; omega

/-- A moved cell is as expected exactly if it keeps what it shows. -/
theorem scrollRect_moved (cp : Char32) (attr : UInt16)
    (h : s.Sized) (h0 : s.rowOrigin = 0) (hsr : Within sr s.size) (hclip : Within clip s.size)
    {x y : Int} (hm : Moves sr clip dx dy x y) :
    (s.scrollRect sr clip dx dy cp attr).cellAt (x + dx) (y + dy) = s.movedCellAt sr clip dx dy x y ↔
      s.KeepsCell sr clip dx dy attr x y := by
  obtain ⟨b1, b2, b3, b4⟩ := id hclip
  obtain ⟨-, ⟨m5, m6⟩, m7, m8⟩ := id hm
  obtain ⟨r₀, hcell⟩ := cellAt_scrollRect dx dy cp attr h h0 hsr hclip
    (y := y + dy) (by omega) (x + dx)
  rw [hcell, cellAt_copyStep_moved h h0 hsr hclip (showsSome_fillStep (showsSome_row h (by omega))) hm, movedCellAt, KeepsCell]
  generalize s.cellAt x y = cell
  obtain ⟨glyph, cols, a⟩ := cell
  by_cases hz : cols = 0
  · subst hz
    by_cases hl : Moves sr clip dx dy (x - 1) y <;> simp [hl, Cell.cut, eq_comm]
  · by_cases h2 : cols = 2
    · subst h2
      by_cases hr : Moves sr clip dx dy (x + 1) y <;> by_cases he : x + dx = s.size.x - 1 <;> simp [hr, he, Cell.cut]
    · simp [hz, h2]

/-- A half that two writes cut is cut once. -/
theorem cut_cut (cell : Cell) (p q p' q' : Prop) [Decidable p] [Decidable q] [Decidable p'] [Decidable q'] :
    (if (if q ∧ cell.cols = 2 ∨ q' ∧ cell.cols = 0 then cell.cut else cell).cols = 2 ∧ p ∨
        (if q ∧ cell.cols = 2 ∨ q' ∧ cell.cols = 0 then cell.cut else cell).cols = 0 ∧ p' then
      (if q ∧ cell.cols = 2 ∨ q' ∧ cell.cols = 0 then cell.cut else cell).cut
    else if q ∧ cell.cols = 2 ∨ q' ∧ cell.cols = 0 then cell.cut else cell) =
      if cell.cols = 2 ∧ (p ∨ q) ∨ cell.cols = 0 ∧ (p' ∨ q') then cell.cut else cell := by
  by_cases h1 : q ∧ cell.cols = 2 ∨ q' ∧ cell.cols = 0
  · have h2 : cell.cols = 2 ∧ (p ∨ q) ∨ cell.cols = 0 ∧ (p' ∨ q') := by
      rcases h1 with ⟨hq, hc⟩ | ⟨hq, hc⟩
      · exact .inl ⟨hc, .inr hq⟩
      · exact .inr ⟨hc, .inr hq⟩
    simp only [if_pos h1, if_pos h2]
    simp [Cell.cut]
  · have h2 : (cell.cols = 2 ∧ p ∨ cell.cols = 0 ∧ p') ↔ cell.cols = 2 ∧ (p ∨ q) ∨ cell.cols = 0 ∧ (p' ∨ q') := by
      constructor
      · rintro (⟨hc, hp⟩ | ⟨hc, hp⟩)
        · exact .inl ⟨hc, .inl hp⟩
        · exact .inr ⟨hc, .inl hp⟩
      · rintro (⟨hc, hp | hq⟩ | ⟨hc, hp | hq⟩)
        · exact .inl ⟨hc, hp⟩
        · exact absurd (.inl ⟨hq, hc⟩) h1
        · exact .inr ⟨hc, hp⟩
        · exact absurd (.inr ⟨hq, hc⟩) h1
    simp only [if_neg h1, h2]

theorem scrollRect_unmoved (h : s.Sized) (h0 : s.rowOrigin = 0) (hsr : Within sr s.size) (hclip : Within clip s.size)
    {x y : Int} (hx : 0 ≤ x ∧ x < s.size.x) (hy : 0 ≤ y ∧ y < s.size.y) (hm : ¬ Moves sr clip dx dy (x - dx) (y - dy))
    (hkeep : ∀ u, Moves sr clip dx dy u (y - dy) → s.KeepsCell sr clip dx dy attr u (y - dy)) :
    (s.scrollRect sr clip dx dy cp attr).cellAt x y = s.expectedCell sr clip dx dy cp attr x y := by
  obtain ⟨r₀, hcell⟩ := cellAt_scrollRect dx dy cp attr h h0 hsr hclip hy x
  have hrow := showsSome_row h hy.2
  have hfill := cellAt_fillStep cp attr (fillPart sr clip) y hrow
    (show 0 ≤ max sr.left clip.left by have := hsr.left; omega)
    (show min sr.right clip.right < (s.size.x.toNat : Int) by have := hsr.right; omega) (c := x.toNat) (by omega)
  rw [Int.toNat_of_nonneg hx.1] at hfill
  rw [hcell, cellAt_copyStep_unmoved h h0 hsr hclip (showsSome_fillStep hrow) hx hm hkeep, hfill, expectedCell, if_neg hm]
  simp only [has_fillPart, Written, cellAt]
  by_cases hin : sr.Has x y ∧ clip.Has x y
  · simp [hin]
  · simp only [if_neg hin]
    exact cut_cut _ _ _ _ _

theorem cellAt_linearizeRows (h : s.Sized) {y : Int} (hy : 0 ≤ y ∧ y < s.size.y) (x : Int) :
    s.linearizeRows.cellAt x y = s.cellAt x y := by
  obtain ⟨hs, hrows, h0, hsize, -, -⟩ := h.linearizeRows
  have hcount := h.count
  have hl : s.linearizeRows.rows.length = s.rows.length := by rw [hrows, length_lines]
  have h1 := row_of_origin h0 (y := y) (by omega)
  rw [hrows, (h.row_eq hy.2).1, Option.some_inj] at h1
  rw [cellAt, cellAt, h1]

theorem clipRect_within (h : s.Sized) (clip : SmallRect) (useClip : Bool) : Within (s.clipRect clip useClip) s.size := by
  have hwidth := h.width
  have hheight := h.height
  unfold clipRect
  split
  · obtain ⟨h1, h2, h3, h4⟩ := clampRect_inside h clip
    exact ⟨h1, h2, h3, h4⟩
  · constructor <;> simp only <;> omega

theorem WholeRows.exact {useClip : Bool} {dest : Coord} (h : s.Sized)
    (hw : s.WholeRows (s.clampRect sr) (s.clipRect clip useClip) (dest.x - sr.left) (dest.y - sr.top)) {x y : Int}
    (hx : 0 ≤ x ∧ x < s.size.x) (hy : 0 ≤ y ∧ y < s.size.y) :
    (s.scroll sr clip useClip dest cp attr).cellAt x y =
      s.expectedCell (s.clampRect sr) (s.clipRect clip useClip) (dest.x - sr.left) (dest.y - sr.top) cp attr x y := by
  have hcount := h.count
  have hwidth := h.width
  obtain ⟨hslid, hframe⟩ := WholeRows.slid cp attr h hw
  obtain ⟨hl, ht, hr, hb⟩ := clampRect_inside h sr
  obtain ⟨hdx, hdy, hleft, hright, hclip⟩ := hw
  rw [hdx, hclip]
  generalize s.clampRect sr = range at *
  generalize dest.y - sr.top = dy at *
  generalize hs' : s.scroll sr clip useClip dest cp attr = s' at *
  have hrow : s'.lines[y.toNat]? = some (s'.row y) := by
    have hlen := hframe.count
    have horigin := hframe.origin
    rw [lines, List.getElem?_rotate (by omega), row, physicalRowIndex, if_neg (by omega), List.getD_eq_getElem?_getD,
      Nat.add_comm, List.getElem?_eq_getElem (Nat.mod_lt _ (by omega)), Option.getD_some]
  have hmoved := hslid.2 y.toNat (by rw [length_lines]; omega)
  rw [hrow, (h.row_eq hy.2).1, Int.toNat_of_nonneg hy.1] at hmoved
  have hiff (u v : Int) : Moves range range 0 dy u v ↔ (0 ≤ u ∧ u < s.size.x) ∧ (range.top ≤ v ∧ v ≤ range.bottom) ∧
      range.top ≤ v + dy ∧ v + dy ≤ range.bottom := by
    simp only [Moves, SmallRect.Has]; omega
  rw [expectedCell, Int.sub_zero]
  simp only [hiff]
  split_ifs at hmoved with h1 h2
  · rw [(h.row_eq (y := y - dy) (by omega)).1, Option.some_inj] at hmoved
    rw [if_pos (by omega), cellAt, hmoved, movedCellAt]
    simp only [hiff]
    obtain ⟨-, -, ⟨hc, -⟩ | ⟨hc, -, hlt, -⟩ | ⟨hc, -, hpos, -⟩⟩ :=
      (showsSome_row h (show y - dy < s.size.y by omega)).cell_cases (show x.toNat < s.size.x.toNat by omega)
    all_goals
      have hc' : (s.cellAt x (y - dy)).cols = _ := hc
      rw [if_neg (by omega)]
      rfl
  · obtain ⟨r, hr', hfilled⟩ := hmoved
    have hvis := hfilled.visible_eq (by omega)
    have hget := getElem?_visible (s'.row y) (c := x.toNat) (by
      rw [Option.some_inj.mp hr', (hfilled.shows (by omega)).width_eq]; omega)
    rw [Option.some_inj.mp hr', hvis, List.getElem?_replicate_of_lt (by omega), Option.some_inj] at hget
    rw [if_neg (by omega), if_pos (by simp only [SmallRect.Has]; omega), cellAt, Option.some_inj.mp hr', ← hget]
  · have hno (u : Int) : ¬ Written range range 0 dy u y := by
      simp only [Written, hiff, SmallRect.Has]; omega
    rw [Option.some_inj] at hmoved
    rw [if_neg (by omega), if_neg (by simp only [SmallRect.Has]; omega), cellAt, hmoved]
    simp only [hno, and_false, or_self, if_false]
    rfl

/-- After any history of calls, a scroll leaves every cell as expected exactly
if it moves whole rows, or every moved cell keeps what it shows. -/
theorem scroll_exact_iff {sz : Coord} (hx : 1 ≤ sz.x ∧ sz.x ≤ 0x7FFF) (hy : 1 ≤ sz.y ∧ sz.y ≤ 0x7FFF) (history : List Op)
    (sr clip : SmallRect) (useClip : Bool) (dest : Coord) (cp : Char32) (attr : UInt16) :
    let s := run (ofSize sz) history
    let src := s.clampRect sr
    let lim := s.clipRect clip useClip
    let dx := dest.x - sr.left
    let dy := dest.y - sr.top
    (∀ x y, 0 ≤ x ∧ x < s.size.x → 0 ≤ y ∧ y < s.size.y →
      (s.scroll sr clip useClip dest cp attr).cellAt x y = s.expectedCell src lim dx dy cp attr x y) ↔
    s.WholeRows src lim dx dy ∨ ∀ x y, Moves src lim dx dy x y → s.KeepsCell src lim dx dy attr x y := by
  intro s src lim dx dy
  have h : s.Sized := (sim_run history (sim_ofSize hx hy)).sized
  have hwidth := h.width
  by_cases hw : s.WholeRows src lim dx dy
  · exact ⟨fun _ => .inl hw, fun _ x y hx hy => WholeRows.exact h hw hx hy⟩
  have hin : Within src s.size := by
    obtain ⟨h1, h2, h3, h4⟩ : 0 ≤ src.left ∧ 0 ≤ src.top ∧ src.right < s.size.x ∧ src.bottom < s.size.y := clampRect_inside h sr
    exact ⟨h1, h2, h3, h4⟩
  have hlim : Within lim s.size := clipRect_within h clip useClip
  have hscroll : s.scroll sr clip useClip dest cp attr =
      if src.isValid = false ∨ lim.isValid = false then s else s.linearizeRows.scrollRect src lim dx dy cp attr :=
    scroll_eq_scrollRect h hw
  rw [hscroll]
  by_cases hv : src.isValid = false ∨ lim.isValid = false
  · -- nothing moves and nothing is written
    have hnone (x y : Int) : ¬ (src.Has x y ∧ lim.Has x y) ∧ ¬ Moves src lim dx dy x y := by
      simp only [SmallRect.isValid, Bool.and_eq_false_iff, decide_eq_false_iff_not] at hv
      simp only [Moves, SmallRect.Has]
      omega
    refine ⟨fun _ => .inr fun x y hm => absurd hm (hnone x y).2, fun _ x y _ _ => ?_⟩
    rw [if_pos hv, expectedCell, if_neg (hnone _ _).2, if_neg (hnone _ _).1]
    simp only [Written, (hnone _ _).1, (hnone _ _).2, or_self, and_false, if_false]
  · rw [if_neg hv]
    obtain ⟨hs, -, h0, hsize, -, -⟩ := h.linearizeRows
    have hcell {y : Int} (hy : 0 ≤ y ∧ y < s.size.y) (x : Int) : s.linearizeRows.cellAt x y = s.cellAt x y :=
      cellAt_linearizeRows h hy x
    have hrange {x y : Int} (hm : Moves src lim dx dy x y) : (0 ≤ y ∧ y < s.size.y) ∧
        (0 ≤ x + dx ∧ x + dx < s.size.x) ∧ 0 ≤ y + dy ∧ y + dy < s.size.y := by
      obtain ⟨⟨-, m3, m4⟩, ⟨m5, m6⟩, m7, m8⟩ := hm
      obtain ⟨a1, a2, a3, a4⟩ := hin
      obtain ⟨b1, b2, b3, b4⟩ := hlim
      omega
    have hkeep {x y : Int} (hm : Moves src lim dx dy x y) :
        s.linearizeRows.KeepsCell src lim dx dy attr x y ↔ s.KeepsCell src lim dx dy attr x y := by
      simp only [KeepsCell, hcell (hrange hm).1, hsize]
    have hmoved {x y : Int} (hm : Moves src lim dx dy x y) :
        (s.linearizeRows.scrollRect src lim dx dy cp attr).cellAt (x + dx) (y + dy) = s.movedCellAt src lim dx dy x y ↔
          s.KeepsCell src lim dx dy attr x y := by
      have := scrollRect_moved cp attr hs h0 (by rw [hsize]; exact hin) (by rw [hsize]; exact hlim) hm
      rwa [hkeep hm, movedCellAt, hcell (hrange hm).1, ← movedCellAt] at this
    constructor
    · refine fun hall => .inr fun x y hm => (hmoved hm).mp ?_
      have := hall (x + dx) (y + dy) (hrange hm).2.1 (hrange hm).2.2
      rwa [expectedCell, show x + dx - dx = x by omega, show y + dy - dy = y by omega, if_pos hm] at this
    · rintro (hw' | hall) x y hx hy
      · exact absurd hw' hw
      · by_cases hm : Moves src lim dx dy (x - dx) (y - dy)
        · have := (hmoved hm).mpr (hall _ _ hm)
          rw [show x - dx + dx = x by omega, show y - dy + dy = y by omega] at this
          rw [this, expectedCell, if_pos hm]
        · rw [scrollRect_unmoved hs h0 (by rw [hsize]; exact hin) (by rw [hsize]; exact hlim) (by rw [hsize]; exact hx)
            (by rw [hsize]; exact hy) hm fun u hu => (hkeep hu).mpr (hall _ _ hu), expectedCell, expectedCell, if_neg hm,
            if_neg hm, hcell hy]

/-- Both halves of a glyph move, in a buffer of two rows. -/
theorem scroll_exact_iff_whole_glyph :
    let s := run (ofSize ⟨4, 2⟩) [.writeGlyph ⟨0, 0⟩ 0x4E2D 2 7]
    ∀ x y, 0 ≤ x ∧ x < s.size.x → 0 ≤ y ∧ y < s.size.y →
      (s.scroll ⟨0, 0, 1, 0⟩ ⟨0, 0, 3, 1⟩ true ⟨2, 1⟩ 0x2E 7).cellAt x y =
        s.expectedCell (s.clampRect ⟨0, 0, 1, 0⟩) (s.clipRect ⟨0, 0, 3, 1⟩ true) 2 1 0x2E 7 x y := by
  refine (@scroll_exact_iff ⟨4, 2⟩ (by decide) (by decide) [.writeGlyph ⟨0, 0⟩ 0x4E2D 2 7] ⟨0, 0, 1, 0⟩ ⟨0, 0, 3, 1⟩
    true ⟨2, 1⟩ 0x2E 7).mpr (.inr fun x y hm => ?_)
  obtain ⟨⟨⟨h1, h2⟩, h3, h4⟩, -⟩ := hm
  have hx : x = 0 ∨ x = 1 := by
    have h1 : 0 ≤ x := h1
    have h2 : x ≤ 1 := h2
    omega
  obtain rfl : y = 0 := Int.le_antisymm h4 h3
  rcases hx with rfl | rfl <;> (unfold KeepsCell; decide)

/-- A glyph cut at its second half is written one column past the rectangle, and
the second half of a glyph gets the attribute of the first. -/
theorem scroll_spills_wide_glyph :
    let s := run (ofSize ⟨4, 2⟩) [.writeGlyph ⟨0, 0⟩ 0x4E2D 2 7]
    let t := run (ofSize ⟨4, 2⟩) [.writeGlyph ⟨0, 0⟩ 0x4E2D 2 7, .setAttr ⟨1, 0⟩ 0x1E]
    (¬ ∀ x y, 0 ≤ x ∧ x < s.size.x → 0 ≤ y ∧ y < s.size.y →
      (s.scroll ⟨0, 0, 0, 0⟩ ⟨0, 0, 3, 1⟩ true ⟨0, 1⟩ 0x2E 7).cellAt x y =
        s.expectedCell ⟨0, 0, 0, 0⟩ ⟨0, 0, 3, 1⟩ 0 1 0x2E 7 x y) ∧
    (s.cellAt 1 1 = ⟨[0x20], 1, .ofWord 7⟩ ∧
      (s.scroll ⟨0, 0, 0, 0⟩ ⟨0, 0, 3, 1⟩ true ⟨0, 1⟩ 0x2E 7).cellAt 1 1 = ⟨[0x4E2D], 0, .ofWord 7⟩) ∧
    t.cellAt 1 0 = ⟨[0x4E2D], 0, .ofWord 0x1E⟩ ∧
      (t.scroll ⟨0, 0, 1, 0⟩ ⟨0, 0, 3, 1⟩ true ⟨2, 1⟩ 0x2E 7).cellAt 3 1 = ⟨[0x4E2D], 0, .ofWord 7⟩ := by
  intro s t
  refine ⟨fun h => ?_, by decide, by decide⟩
  have := h 1 1 (by decide) (by decide)
  revert this
  decide

end Corehost.ScreenBuffer
