import Corehost.Row.Invariant

/-!
# A row is an array of cells

* `visible r`: what a reader of the row sees in each column;
* `overwriteCells`: the array of cells after a run has been written, the
  abstract meaning of every write;
* `visible_put`: overwriting the strip of a row is overwriting its cells;
* `bulk_writes_refine_cells`: the bulk writes, the fold of `write_glyph` and
  the array of cells agree.
-/

namespace Corehost.ScreenBufferRow

open Lib Lib.Strip

variable {r : ScreenBufferRow} {w : Nat} {gs new : List (Glyph Char32)} {as : List TextAttribute}

/-- What a column shows: the characters of its glyph, the columns the glyph
takes (0 for its second column) and the attribute. -/
structure Cell where
  glyph : List Char32
  cols : Nat
  attr : TextAttribute
deriving DecidableEq, Repr

def cellAt (r : ScreenBufferRow) (c : Nat) : Cell := ⟨r.glyphAt c, r.glyphWidth c, r.attrAt c⟩

def visible (r : ScreenBufferRow) : List Cell := (List.range r.width).map r.cellAt

/-- The cells of a run of characters with their widths. -/
def runCells (attr : TextAttribute) : List (Char32 × Nat) → List Cell
  | [] => []
  | (cp, n) :: run =>
    (if n = 2 then [⟨[cp], 2, attr⟩, ⟨[cp], 0, attr⟩] else [⟨[cp], 1, attr⟩]) ++ runCells attr run

/-- Half of a wide glyph whose other half has been overwritten. -/
def Cell.cut (cell : Cell) : Cell := { cell with glyph := [0x20], cols := 1 }

/-- The array of cells after `run` has been written at column `col`. -/
def overwriteCells (cells : List Cell) (col : Nat) (run : List Cell) : List Cell :=
  if run = [] then cells
  else cells.mapIdx fun c cell =>
    if col ≤ c ∧ c < col + run.length then run.getD (c - col) cell
    else if c + 1 = col ∧ cell.cols = 2 then cell.cut
    else if c = col + run.length ∧ cell.cols = 0 then cell.cut
    else cell

/-- `write_glyph` for one character after the other. -/
def writeGlyphs (r : ScreenBufferRow) (col : Nat) (attr : TextAttribute) : List (Char32 × Nat) → ScreenBufferRow
  | [] => r
  | (cp, n) :: run => (r.writeGlyph col [cp] n attr).writeGlyphs (col + n) attr run

/-! ## Cells of a strip -/

/-- `glyph_width` at a column. -/
def halfCols : Half → Nat
  | .whole => 1
  | .lead => 2
  | .trail => 0

def toCell (p : (Char32 × Half) × TextAttribute) : Cell := ⟨[p.1.1], halfCols p.1.2, p.2⟩

theorem toCell_cols_eq_two {ch : Char32} {half : Half} {a : TextAttribute} :
    (toCell ((ch, half), a)).cols = 2 ↔ half = .lead := by
  cases half <;> simp [toCell, halfCols]

theorem toCell_cols_eq_zero {ch : Char32} {half : Half} {a : TextAttribute} :
    (toCell ((ch, half), a)).cols = 0 ↔ half = .trail := by
  cases half <;> simp [toCell, halfCols]

theorem Shows.cellAt_eq (h : Shows r w gs as) {c : Nat} (hc : c < w) :
    some (r.cellAt c) = ((cells gs)[c]?.map fun x => toCell (x, as.getD c {})) := by
  have hcols := h.cols_eq
  rw [cellAt, h.attrAt_eq hc]
  obtain ⟨pre, ⟨a, wide⟩, post, rfl, hp⟩ := exists_glyph_at (show c < cols gs by omega)
  rcases hp with rfl | ⟨hw, rfl⟩
  · have := getElem?_cells_pre pre ⟨a, wide⟩ post (i := 0) (by simp [Glyph.cols_pos])
    rw [Nat.add_zero] at this
    rw [this, h.glyphAt_lead, h.glyphWidth_lead]
    cases wide <;> simp [Glyph.cells, toCell, halfCols]
  · simp only at hw
    subst hw
    have := getElem?_cells_pre pre ⟨a, true⟩ post (i := 1) (by simp)
    rw [this, h.glyphAt_trail, h.glyphWidth_trail]
    simp [Glyph.cells, toCell, halfCols]

theorem getElem?_zip_of {α β : Type*} {xs : List α} {ys : List β} {i : Nat} {x : α} {y : β} (hx : xs[i]? = some x)
    (hy : ys[i]? = some y) : (xs.zip ys)[i]? = some (x, y) := List.getElem?_zip_eq_some.mpr ⟨hx, hy⟩

theorem Shows.visible_eq (h : Shows r w gs as) : r.visible = ((cells gs).zip as).map toCell := by
  have hcols := h.cols_eq
  have hl := h.length_attrs
  refine List.ext_getElem? fun c => ?_
  rw [visible, List.getElem?_map, List.getElem?_map, h.width_eq]
  rcases Nat.lt_or_ge c w with hc | hc
  · have hca := h.cellAt_eq hc
    have hcc : c < (cells gs).length := by simp; omega
    have hac : c < as.length := by omega
    have hzip : ((cells gs).zip as)[c]? = some ((cells gs)[c], as[c]) :=
      getElem?_zip_of (List.getElem?_eq_getElem hcc) (List.getElem?_eq_getElem hac)
    rw [List.getElem?_range hc, Option.map_some, hca, List.getElem?_eq_getElem hcc, hzip]
    simp [hac]
  · rw [List.getElem?_eq_none (by simpa using hc), List.getElem?_eq_none (by simp; omega)]
    rfl

theorem map_runCells (attr : TextAttribute) : ∀ (gs : List (Glyph Char32)),
    runCells attr (gs.map fun g => (g.char, g.cols)) = ((cells gs).map fun x => toCell (x, attr))
  | [] => rfl
  | ⟨a, wide⟩ :: gs => by
    rw [List.map_cons, runCells, map_runCells attr gs]
    cases wide <;> simp [Glyph.cells, toCell, halfCols]

theorem length_runCells (attr : TextAttribute) (gs : List (Glyph Char32)) :
    (runCells attr (gs.map fun g => (g.char, g.cols))).length = cols gs := by
  rw [map_runCells]; simp

/-- Overwriting the strip and the attributes of a row is overwriting its cells. -/
theorem map_toCell_put {c : Nat} {a : TextAttribute} (hl : as.length = cols gs) (hne : new ≠ [])
    (hc : c + cols new ≤ cols gs) :
    ((cells (put gs c new)).zip (fillRange as c (c + cols new) a)).map toCell =
      overwriteCells (((cells gs).zip as).map toCell) c (runCells a (new.map fun g => (g.char, g.cols))) := by
  have hput : cols (put gs c new) = cols gs := cols_overwrite _ hc
  have hfl := length_fillRange (l := as) a (show c + cols new ≤ as.length by omega) (show c ≤ c + cols new by omega)
  have hrl := length_runCells a new
  have hrne : runCells a (new.map fun g => (g.char, g.cols)) ≠ [] := by
    have := length_le_cols new
    have := List.length_pos_iff.mpr hne
    exact List.length_pos_iff.mp (by omega)
  rw [overwriteCells, if_neg hrne]
  refine List.ext_getElem? fun i => ?_
  rw [List.getElem?_mapIdx, List.getElem?_map, List.getElem?_map]
  rcases Nat.lt_or_ge i (cols gs) with hi | hi
  · have hcells := getElem?_cells_overwrite (0x20 : Char32) hc i
    have hattrs := @getElem?_setRange _ as c (List.replicate (c + cols new - c) a) (by simp; omega) i
    simp only [List.length_replicate, Nat.add_sub_cancel_left] at hattrs
    have hil : i < (cells gs).length := by simpa using hi
    have hia : i < as.length := by omega
    have hold : (cells gs)[i]? = some (cells gs)[i] := List.getElem?_eq_getElem _
    have hatt : as[i]? = some as[i] := List.getElem?_eq_getElem _
    have hzip : ((cells gs).zip as)[i]? = some ((cells gs)[i], as[i]) :=
      getElem?_zip_of hold hatt
    rw [hzip, Option.map_some, Option.map_some, hrl]
    have hhalf : ∀ x, halfAt gs i = some x ↔ (cells gs)[i].2 = x := by
      intro x; rw [halfAt, hold]; simp
    simp only [hhalf] at hcells
    generalize (cells gs)[i] = old at hcells hold
    generalize as[i] = att at hattrs hatt
    rw [fillRange, Nat.add_sub_cancel_left]
    split
    · rename_i hin
      rw [if_pos hin] at hcells hattrs
      have hlt : i - c < (cells new).length := by simp; omega
      rw [List.getElem?_eq_getElem hlt] at hcells
      rw [List.getElem?_replicate_of_lt (by omega)] at hattrs
      rw [getElem?_zip_of hcells hattrs, map_runCells]
      simp [List.getD_eq_getElem?_getD, show i - c < cols new by omega]
    · rename_i hout
      rw [if_neg hout] at hcells hattrs
      rw [hatt] at hattrs
      obtain ⟨ch, half⟩ := old
      have key : ∀ {x}, (cells (put gs c new))[i]? = some x →
          Option.map toCell ((cells (put gs c new)).zip (setRange as c (List.replicate (cols new) a)))[i]? =
            some (toCell (x, att)) := fun hx => by
        rw [getElem?_zip_of hx hattrs, Option.map_some]
      by_cases h1 : i + 1 = c ∧ half = .lead
      · rw [if_pos (.inl h1)] at hcells
        obtain ⟨h1, rfl⟩ := h1
        rw [key hcells, if_pos ⟨h1, rfl⟩]
        rfl
      · by_cases h2 : i = c + cols new ∧ half = .trail
        · rw [if_pos (.inr h2)] at hcells
          obtain ⟨h2, rfl⟩ := h2
          rw [key hcells, if_neg (by simp [toCell, halfCols]), if_pos ⟨h2, rfl⟩]
          rfl
        · rw [if_neg (by simp [h1, h2]), hold] at hcells
          have e1 : ¬ (i + 1 = c ∧ (toCell ((ch, half), att)).cols = 2) := by
            rwa [toCell_cols_eq_two]
          have e2 : ¬ (i = c + cols new ∧ (toCell ((ch, half), att)).cols = 0) := by
            rwa [toCell_cols_eq_zero]
          rw [key hcells, if_neg e1, if_neg e2]
  · rw [List.getElem?_eq_none (by simp; omega), List.getElem?_eq_none (by simp; omega)]
    rfl

/-! ## The fold of write_glyph -/

theorem fillRange_fillRange {as : List TextAttribute} {s m e : Nat} (a : TextAttribute) (hsm : s ≤ m) (hme : m ≤ e)
    (he : e ≤ as.length) : fillRange (fillRange as s m a) m e a = fillRange as s e a := by
  have hl := length_fillRange (l := as) a (show m ≤ as.length by omega) hsm
  refine List.ext_getElem? fun i => ?_
  simp only [fillRange] at hl ⊢
  rw [getElem?_setRange (by simp [hl]; omega), getElem?_setRange (by simp; omega), getElem?_setRange (by simp; omega)]
  simp only [List.length_replicate]
  by_cases h1 : m ≤ i ∧ i < m + (e - m)
  · rw [if_pos h1, if_pos (by omega), List.getElem?_replicate_of_lt (by omega), List.getElem?_replicate_of_lt (by omega)]
  · rw [if_neg h1]
    by_cases h2 : s ≤ i ∧ i < s + (m - s)
    · rw [if_pos h2, if_pos (by omega), List.getElem?_replicate_of_lt (by omega), List.getElem?_replicate_of_lt (by omega)]
    · rw [if_neg h2, if_neg (by omega)]

theorem Shows.writeGlyphs (a : TextAttribute) : ∀ (new : List (Glyph Char32)) {r : ScreenBufferRow}
    {gs : List (Glyph Char32)} {as : List TextAttribute} {c : Nat}, Shows r w gs as → c + cols new ≤ w →
    Shows (r.writeGlyphs c a (new.map fun g => (g.char, g.cols))) w (overwriteEach 0x20 gs c new)
      (fillRange as c (c + cols new) a)
  | [], r, gs, as, c, h, _ => by
    simpa [ScreenBufferRow.writeGlyphs, overwriteEach, fillRange_empty] using h
  | g :: new, r, gs, as, c, h, hc => by
    simp only [cols_cons] at hc ⊢
    have hstep := Shows.writeGlyphs a new (c := c + g.cols) (h.writeGlyph g (c := c) (by omega) a) (by omega)
    rw [fillRange_fillRange a (by omega) (by omega) (by rw [h.length_attrs]; omega)] at hstep
    simpa [ScreenBufferRow.writeGlyphs, overwriteEach, Nat.add_assoc] using hstep

/-- Any write that overwrites the strip leaves the array of cells overwritten. -/
theorem Shows.visible_put {x : ScreenBufferRow} {c : Nat} {a : TextAttribute} (h : Shows r w gs as) (hne : new ≠ [])
    (hc : c + cols new ≤ w) (hx : Shows x w (put gs c new) (fillRange as c (c + cols new) a)) :
    x.visible = overwriteCells r.visible c (runCells a (new.map fun g => (g.char, g.cols))) := by
  rw [hx.visible_eq, h.visible_eq, map_toCell_put (by rw [h.length_attrs, h.cols_eq]) hne (by rw [h.cols_eq]; exact hc)]

theorem exists_glyphs {run : List (Char32 × Nat)} (hw : ∀ p ∈ run, p.2 = 1 ∨ p.2 = 2) :
    ∃ new : List (Glyph Char32), run = new.map fun g => (g.char, g.cols) := by
  refine ⟨run.map fun p => ⟨p.1, p.2 == 2⟩, ?_⟩
  rw [List.map_map]
  conv_lhs => rw [← List.map_id run]
  refine List.map_congr_left fun ⟨cp, n⟩ hp => ?_
  rcases hw _ hp with h | h <;> simp only at h <;> subst h <;> simp

/-- Writing a run glyph by glyph, in bulk, or into the array of cells is the
same. In bulk, `write_text_row` passes the widths of all characters, or none
for a whole row of narrow ones. A run that `try_write_single_width_run` does
not take leaves the row as it was. -/
theorem bulk_writes_refine_cells (h : WellFormed r w) (col : Nat) (run : List (Char32 × Nat)) (attr : TextAttribute)
    (hw : ∀ p ∈ run, p.2 = 1 ∨ p.2 = 2) (hfit : col + (run.map Prod.snd).sum ≤ w) :
    (r.writeGlyphs col attr run).visible = overwriteCells r.visible col (runCells attr run) ∧
    (r.writeMeasuredRun col (run.map Prod.fst) (run.map Prod.snd) (run.map Prod.snd).sum false attr).visible =
      (r.writeGlyphs col attr run).visible ∧
    ((∀ p ∈ run, p.2 = 1) → col = 0 → run.length = w →
      (r.writeMeasuredRun 0 (run.map Prod.fst) [] run.length true attr).visible = (r.writeGlyphs 0 attr run).visible) ∧
    (r.writeTextRun col (run.map Prod.fst) (run.map Prod.snd) attr).visible = (r.writeGlyphs col attr run).visible ∧
    ((∀ p ∈ run, p.2 = 1) → (r.tryWriteSingleWidthRun col (run.map Prod.fst) attr).1 = true →
      (r.tryWriteSingleWidthRun col (run.map Prod.fst) attr).2.visible = (r.writeGlyphs col attr run).visible) ∧
    ∀ (c : Nat) (text : List Char32) (a : TextAttribute), (r.tryWriteSingleWidthRun c text a).1 = false →
      (r.tryWriteSingleWidthRun c text a).2.visible = r.visible := by
  obtain ⟨hpos, gs, as, hs⟩ := wellFormed_iff.mp h
  obtain ⟨new, rfl⟩ := exists_glyphs hw
  have hchar : (new.map fun g => (g.char, g.cols)).map Prod.fst = new.map Glyph.char := by simp [Function.comp_def]
  have hcols : (new.map fun g => (g.char, g.cols)).map Prod.snd = new.map Glyph.cols := by simp [Function.comp_def]
  rw [hcols, sum_map_cols] at hfit
  rw [hchar, hcols, sum_map_cols]
  have hcells := hs.cols_eq
  have hfail : ∀ (c : Nat) (text : List Char32) (a : TextAttribute), (r.tryWriteSingleWidthRun c text a).1 = false →
      (r.tryWriteSingleWidthRun c text a).2.visible = r.visible := by
    intro c text a ht
    rw [((hs.trySingleWidthRun c text a).1 ht).visible_eq, hs.visible_eq]
  have hsingle : ∀ {ts : List (Glyph Char32)}, (∀ p ∈ ts.map fun g => (g.char, g.cols), p.2 = 1) →
      ∀ g ∈ ts, g.wide = false := by
    intro ts ht g hg
    have := ht (g.char, g.cols) (List.mem_map_of_mem hg)
    obtain ⟨a, wide⟩ := g
    cases wide
    · rfl
    · simp at this
  by_cases hne : new = []
  · subst hne
    refine ⟨by simp [ScreenBufferRow.writeGlyphs, overwriteCells, runCells], ?_, fun _ _ hl => ?_, ?_, fun _ ht => ?_, hfail⟩
    · simp [ScreenBufferRow.writeMeasuredRun, ScreenBufferRow.writeGlyphs]
    · simp only [List.map_nil, List.length_nil] at hl; omega
    · simp [ScreenBufferRow.writeTextRun, ScreenBufferRow.writeGlyphs]
    · have := (hs.trySingleWidthRun col [] attr).2.1 (by simpa using ht) rfl
      simpa [this.visible_eq, ScreenBufferRow.writeGlyphs] using hs.visible_eq.symm
  · have hfold := hs.writeGlyphs attr new hfit
    obtain ⟨g, rest, hgr⟩ : ∃ g rest, new = g :: rest := List.exists_cons_of_ne_nil hne
    have heach : overwriteEach 0x20 gs col new = put gs col new := by
      rw [hgr]; exact overwriteEach_eq _ g rest (by rw [← hgr, hcells]; exact hfit)
    rw [heach] at hfold
    have hvis := hs.visible_put hne hfit hfold
    refine ⟨hvis, ?_, fun hn h0 hl => ?_, ?_, fun hn ht => ?_, hfail⟩
    · rw [hvis]
      exact hs.visible_put hne hfit (hs.writeMeasuredRun _ false (by simp [Passes]) (by simp) hne hfit attr)
    · subst h0
      have hnw := hsingle hn
      have hcl : cols new = new.length := cols_eq_length hnw
      rw [List.length_map] at hl
      rw [hvis, List.length_map, ← hcl]
      exact hs.visible_put hne hfit (hs.writeMeasuredRun [] true (by simpa [Passes] using hnw)
        (fun _ => .inl ⟨rfl, by omega⟩) hne hfit attr)
    · rw [hvis]
      exact hs.visible_put hne hfit (hs.writeTextRun hne hfit attr)
    · have hnw := hsingle hn
      have := ((hs.trySingleWidthRun col (new.map Glyph.char) attr).2.2 ht (by simpa using hne)).2
      rw [List.length_map, ← cols_eq_length hnw, ← eq_map_single hnw] at this
      rw [hvis]
      exact hs.visible_put hne hfit this

/-- A wide and a narrow character in a filled row of four columns. -/
theorem bulk_writes_refine_cells_row :
    ((resetFill {} 4 0x78 {}).writeMeasuredRun 1 [0x4E2D, 0x61] [2, 1] 3 false {}).visible =
      ((resetFill {} 4 0x78 {}).writeGlyphs 1 {} [(0x4E2D, 2), (0x61, 1)]).visible :=
  (bulk_writes_refine_cells (w := 4) (wellFormed_iff.mpr ⟨by decide, _, _, Shows.resetFill {} (by decide) 0x78 {}⟩) 1
    [(0x4E2D, 2), (0x61, 1)] {} (by decide) (by decide)).2.1

end Corehost.ScreenBufferRow
