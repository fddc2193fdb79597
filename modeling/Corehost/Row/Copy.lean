import Corehost.Row.Refine

/-!
# Copying columns, cell by cell

* `visible_writeGlyph`: a glyph is written over its cells;
* `overwriteCells_append`: one run after the other is one run;
* `visible_copyColumns`: the cells that `copy_from` writes. The second half of
  a wide glyph gets the attribute of the first, and a glyph of which the first
  half is the last column takes one column more;
* `cellAt_copyFrom`: the cells of the row after `copy_from`, inside and outside
  of the columns copied.
-/

namespace Corehost.ScreenBufferRow

open Lib Lib.Strip

variable {r src : ScreenBufferRow} {w sw : Nat} {gs : List (Glyph Char32)} {as : List TextAttribute}

/-! ## Cells of a row -/

theorem getElem?_visible (r : ScreenBufferRow) {c : Nat} (hc : c < r.width) : r.visible[c]? = some (r.cellAt c) := by
  rw [visible, List.getElem?_map, List.getElem?_range hc, Option.map_some]

/-- A column is a narrow glyph, or one half of a wide one. -/
theorem ShowsSome.cell_cases (h : r.ShowsSome w) {c : Nat} (hc : c < w) : ∃ cp,
    r.glyphAt c = [cp] ∧
      (r.glyphWidth c = 1 ∧ r.isTrailing c = false ∨
        r.glyphWidth c = 2 ∧ r.isTrailing c = false ∧ c + 1 < w ∧ r.glyphWidth (c + 1) = 0 ∧ r.glyphAt (c + 1) = [cp] ∧
          r.isTrailing (c + 1) = true ∨
        r.glyphWidth c = 0 ∧ r.isTrailing c = true ∧ 0 < c ∧ r.glyphWidth (c - 1) = 2 ∧ r.glyphAt (c - 1) = [cp]) := by
  obtain ⟨gs, as, h⟩ := h
  have hcols := h.cols_eq
  obtain ⟨pre, ⟨a, wide⟩, post, rfl, hp⟩ := exists_glyph_at (show c < cols gs by omega)
  refine ⟨a, ?_⟩
  simp only [cols_append, cols_cons] at hcols
  rcases hp with rfl | ⟨hw, rfl⟩
  · rw [h.glyphAt_lead, h.glyphWidth_lead, h.isTrailing_boundary]
    cases wide
    · exact ⟨rfl, .inl ⟨rfl, rfl⟩⟩
    · rw [h.glyphAt_trail, h.glyphWidth_trail, h.isTrailing_trail]
      refine ⟨rfl, .inr (.inl ⟨rfl, rfl, ?_, rfl, rfl, rfl⟩)⟩
      simp only [Glyph.cols_double] at hcols
      omega
  · simp only at hw
    subst hw
    rw [h.glyphAt_trail, h.glyphWidth_trail, h.isTrailing_trail, Nat.add_sub_cancel, h.glyphAt_lead, h.glyphWidth_lead]
    exact ⟨rfl, .inr (.inr ⟨rfl, rfl, by omega, rfl, rfl⟩)⟩

theorem ShowsSome.width_eq (h : r.ShowsSome w) : r.width = w := by
  obtain ⟨gs, as, h⟩ := h
  exact h.width_eq

theorem ShowsSome.cols_cases (h : r.ShowsSome w) (hc : c < w) :
    (∃ cp, (r.cellAt c).glyph = [cp]) ∧ ((r.cellAt c).cols = 0 ∨ (r.cellAt c).cols = 1 ∨ (r.cellAt c).cols = 2) := by
  obtain ⟨cp, hcp, hcase⟩ := h.cell_cases hc
  refine ⟨⟨cp, hcp⟩, ?_⟩
  change r.glyphWidth c = 0 ∨ r.glyphWidth c = 1 ∨ r.glyphWidth c = 2
  omega

theorem ShowsSome.trail_of_lead (h : r.ShowsSome w) (hc : c < w) (h2 : (r.cellAt c).cols = 2) :
    c + 1 < w ∧ (r.cellAt (c + 1)).cols = 0 ∧ (r.cellAt (c + 1)).glyph = (r.cellAt c).glyph := by
  obtain ⟨cp, hcp, hcase⟩ := h.cell_cases hc
  change r.glyphWidth c = 2 at h2
  change c + 1 < w ∧ r.glyphWidth (c + 1) = 0 ∧ r.glyphAt (c + 1) = r.glyphAt c
  rcases hcase with ⟨h1, -⟩ | ⟨-, -, hlt, hw, hg, -⟩ | ⟨h0, -⟩
  · omega
  · exact ⟨hlt, hw, hg.trans hcp.symm⟩
  · omega

theorem ShowsSome.lead_of_trail (h : r.ShowsSome w) (hc : c < w) (h0 : (r.cellAt c).cols = 0) :
    0 < c ∧ (r.cellAt (c - 1)).cols = 2 ∧ (r.cellAt (c - 1)).glyph = (r.cellAt c).glyph := by
  obtain ⟨cp, hcp, hcase⟩ := h.cell_cases hc
  change r.glyphWidth c = 0 at h0
  change 0 < c ∧ r.glyphWidth (c - 1) = 2 ∧ r.glyphAt (c - 1) = r.glyphAt c
  rcases hcase with ⟨h1, -⟩ | ⟨h2, -⟩ | ⟨-, -, hlt, hw, hg⟩
  · omega
  · omega
  · exact ⟨hlt, hw, hg.trans hcp.symm⟩

theorem ShowsSome.isTrailing_eq (h : r.ShowsSome w) (hc : c < w) : r.isTrailing c = decide ((r.cellAt c).cols = 0) := by
  obtain ⟨cp, -, hcase⟩ := h.cell_cases hc
  change r.isTrailing c = decide (r.glyphWidth c = 0)
  rcases hcase with ⟨h1, ht⟩ | ⟨h2, ht, -⟩ | ⟨h0, ht, -⟩ <;> rw [ht] <;> simp [*]

theorem visible_writeGlyph (h : r.ShowsSome w) {c : Nat} (g : Glyph Char32) (hc : c + g.cols ≤ w) (a : TextAttribute) :
    (r.writeGlyph c [g.char] g.cols a).visible = overwriteCells r.visible c (runCells a [(g.char, g.cols)]) := by
  obtain ⟨gs, as, h⟩ := h
  have hg : c + cols [g] = c + g.cols := by simp
  exact h.visible_put (by simp : [g] ≠ []) (by omega) (by rw [hg]; exact h.writeGlyph g hc a)

theorem visible_writeNarrow (h : r.ShowsSome w) {c : Nat} (hc : c < w) (cp : Char32) (a : TextAttribute) :
    (r.writeGlyph c [cp] 1 a).visible = overwriteCells r.visible c [⟨[cp], 1, a⟩] := by
  simpa [runCells] using visible_writeGlyph h ⟨cp, false⟩ (by simp; omega) a

theorem visible_writeWide (h : r.ShowsSome w) {c : Nat} (hc : c + 1 < w) (cp : Char32) (a : TextAttribute) :
    (r.writeGlyph c [cp] 2 a).visible = overwriteCells r.visible c [⟨[cp], 2, a⟩, ⟨[cp], 0, a⟩] := by
  simpa [runCells] using visible_writeGlyph h ⟨cp, true⟩ (by simp; omega) a

/-! ## Runs of cells -/

/-- The run does not end with the first half of a glyph. -/
def Closed (run : List Cell) : Prop := ∀ cell, run.getLast? = some cell → cell.cols ≠ 2

/-- The cell of column `c` after `run` has been written over `cell` at `col`. -/
def overwriteCell (col : Nat) (run : List Cell) (c : Nat) (cell : Cell) : Cell :=
  if col ≤ c ∧ c < col + run.length then run.getD (c - col) cell
  else if c + 1 = col ∧ run ≠ [] ∧ cell.cols = 2 then cell.cut
  else if c = col + run.length ∧ run ≠ [] ∧ cell.cols = 0 then cell.cut
  else cell

theorem getElem?_overwriteCells (cells : List Cell) (col : Nat) (run : List Cell) (c : Nat) :
    (overwriteCells cells col run)[c]? = cells[c]?.map (overwriteCell col run c) := by
  unfold overwriteCells overwriteCell
  split
  · rename_i h
    subst h
    simp only [List.length_nil, Nat.add_zero, ne_eq, not_true_eq_false, false_and, and_false, if_false]
    rw [Option.map_congr (g := id) fun x _ => by rw [if_neg (by omega)]; rfl]
    simp
  · rename_i h
    simp only [List.getElem?_mapIdx, ne_eq, h, not_false_eq_true, true_and]

/-- A run, and another one after it. -/
theorem overwriteCells_append {cells run run' : List Cell} {col : Nat} (hclosed : Closed run) (hne : run ≠ []) :
    overwriteCells (overwriteCells cells col run) (col + run.length) run' = overwriteCells cells col (run ++ run') := by
  have hpos := List.length_pos_iff.mpr hne
  refine List.ext_getElem? fun c => ?_
  rw [getElem?_overwriteCells, getElem?_overwriteCells, getElem?_overwriteCells, Option.map_map]
  refine Option.map_congr fun cell _ => ?_
  by_cases hnil : run' = []
  · subst hnil
    simp [overwriteCell]
  have hpos' := List.length_pos_iff.mpr hnil
  have hlen : (run ++ run').length = run.length + run'.length := List.length_append
  rw [Function.comp_apply, overwriteCell, overwriteCell, overwriteCell, hlen]
  rcases Nat.lt_or_ge c col with h1 | h1
  · simp only [show ¬ (col ≤ c ∧ c < col + run.length) by omega,
      show ¬ (col + run.length ≤ c ∧ c < col + run.length + run'.length) by omega,
      show ¬ (col ≤ c ∧ c < col + (run.length + run'.length)) by omega, show ¬ c + 1 = col + run.length by omega,
      show ¬ c = col + run.length by omega, show ¬ c = col + run.length + run'.length by omega,
      show ¬ c = col + (run.length + run'.length) by omega, if_false, false_and]
    simp [hne]
  · rcases Nat.lt_or_ge c (col + run.length) with h2 | h2
    · have hlast : c + 1 = col + run.length → (run.getD (c - col) cell).cols ≠ 2 := by
        intro hc
        refine hclosed _ ?_
        rw [List.getLast?_eq_getElem?, List.getD_eq_getElem?_getD, List.getElem?_eq_getElem (by omega),
          List.getElem?_eq_getElem (by omega), Option.getD_some]
        simp only [show c - col = run.length - 1 by omega]
      rw [if_neg (show ¬ (col + run.length ≤ c ∧ c < col + run.length + run'.length) by omega),
        if_pos (show col ≤ c ∧ c < col + run.length from ⟨h1, h2⟩), if_neg (fun hh => hlast hh.1 hh.2.2),
        if_neg (by omega), if_pos (show col ≤ c ∧ c < col + (run.length + run'.length) by omega),
        List.getD_eq_getElem?_getD, List.getD_eq_getElem?_getD, List.getElem?_append_left (by omega)]
    · rcases Nat.lt_or_ge c (col + run.length + run'.length) with h3 | h3
      · have hget (x : Cell) : (run ++ run').getD (c - col) cell = run'.getD (c - (col + run.length)) x := by
          rw [List.getD_eq_getElem?_getD, List.getD_eq_getElem?_getD, List.getElem?_append_right (by omega),
            show c - col - run.length = c - (col + run.length) by omega, List.getElem?_eq_getElem (by omega)]
          rfl
        rw [if_pos (show col + run.length ≤ c ∧ c < col + run.length + run'.length from ⟨h2, h3⟩),
          if_pos (show col ≤ c ∧ c < col + (run.length + run'.length) by omega), hget]
      · rw [if_neg (show ¬ (col + run.length ≤ c ∧ c < col + run.length + run'.length) by omega),
          if_neg (show ¬ (col ≤ c ∧ c < col + run.length) by omega), if_neg (show ¬ (c + 1 = col ∧ _) by omega),
          if_neg (show ¬ (c = col + run.length ∧ _) by omega), if_neg (show ¬ (c + 1 = col + run.length ∧ _) by omega),
          if_neg (show ¬ (col ≤ c ∧ c < col + (run.length + run'.length)) by omega),
          if_neg (show ¬ (c + 1 = col ∧ _) by omega), Nat.add_assoc]
        simp [hnil, hne]

/-! ## Copied columns -/

/-- The loop of `copy_from`, inside both rows. -/
def copyColumns (src : ScreenBufferRow) (s d n : Nat) (r : ScreenBufferRow) : ScreenBufferRow :=
  (List.range n).foldl (copyColumn src s d) r

theorem copyFrom_eq_copyColumns {s d n : Nat} (hs : s + n ≤ src.width) (hd : d + n ≤ r.width) :
    r.copyFrom src s d n = copyColumns src s d n r := by
  unfold copyFrom copyColumns
  rw [List.takeWhile_eq_self_iff.mpr]
  intro i hi
  have := List.mem_range.mp hi
  simp only [Bool.and_eq_true, decide_eq_true_eq]
  omega

theorem copyColumns_succ (src r : ScreenBufferRow) (s d n : Nat) :
    copyColumns src s d (n + 1) r = copyColumns src (s + 1) (d + 1) n (copyColumn src s d r 0) := by
  unfold copyColumns
  rw [List.range_succ_eq_map, List.foldl_cons, List.foldl_map]
  refine List.foldl_ext _ _ _ fun x i _ => ?_
  rw [copyColumn, copyColumn, Nat.succ_eq_add_one, show s + (i + 1) = s + 1 + i by omega,
    show d + (i + 1) = d + 1 + i by omega]

/-- The cell that `copy_from` makes of column `s + i`, when `n` columns are copied
to where `room` columns are left. -/
def copiedCell (src : ScreenBufferRow) (s n room i : Nat) : Cell :=
  let cell := src.cellAt (s + i)
  if cell.cols = 0 then { cell with attr := src.attrAt (s + i - 1) }
  else if cell.cols = 2 ∧ i + 1 = n ∧ n = room then { cell with cols := 1 }
  else cell

theorem copiedCell_shift (src : ScreenBufferRow) (s n room k i : Nat) :
    copiedCell src s (n + k) (room + k) (i + k) = copiedCell src (s + k) n room i := by
  have h1 : s + (i + k) = s + k + i := by omega
  have h2 : i + k + 1 = n + k ↔ i + 1 = n := by omega
  have h3 : n + k = room + k ↔ n = room := by omega
  simp only [copiedCell, h1, h2, h3]

/-- What `copy_from` has written over the cells of the row. -/
structure CopiedRun (src : ScreenBufferRow) (s n room : Nat) (run : List Cell) : Prop where
  cell : ∀ i < n, run[i]? = some (copiedCell src s n room i)
  length : run.length = n ∨ run.length = n + 1 ∧ 0 < n ∧ (src.cellAt (s + n - 1)).cols = 2 ∧ n < room

theorem visible_copyColumns (hsrc : src.ShowsSome sw) (hsw : sw ≤ 0x7FFF) (hw : w ≤ 0x7FFF) : ∀ (n s d : Nat)
    {r : ScreenBufferRow}, r.ShowsSome w → s + n ≤ sw → d + n ≤ w → (0 < n → src.isTrailing s = false) →
    ∃ run, (copyColumns src s d n r).visible = overwriteCells r.visible d run ∧ CopiedRun src s n (w - d) run
  | 0, s, d, r, _, _, _, _ => ⟨[], by simp [copyColumns, overwriteCells], by simp, .inl rfl⟩
  | n + 1, s, d, r, hr, hs, hd, ht => by
    have ht := ht (by omega)
    obtain ⟨cp, hcp, hcase⟩ := hsrc.cell_cases (show s < sw by omega)
    have hcol : copyColumn src s d r 0 = r.writeGlyph d [cp] (src.glyphWidth s) (src.attrAt s) := by
      rw [copyColumn, Nat.add_zero, Nat.add_zero, u16_of_lt (show s < 0x10000 by omega), u16_of_lt (show d < 0x10000 by omega)]
      simp only [ht, hcp, Bool.false_eq_true, if_false]
    -- a column is the second half of a glyph only after the first half
    have hnext {c : Nat} (hc : c + 1 < sw) (h2 : src.glyphWidth c ≠ 2) : src.isTrailing (c + 1) = false := by
      obtain ⟨-, -, ⟨-, h⟩ | ⟨-, h, -⟩ | ⟨-, -, -, h, -⟩⟩ := hsrc.cell_cases hc
      · exact h
      · exact h
      · exact absurd h h2
    rw [copyColumns_succ, hcol]
    rcases hcase with ⟨h1, -⟩ | ⟨h2, -, hlt, hw0, hcp', htr⟩ | ⟨-, h, -⟩
    · obtain ⟨run, hvis, hrun⟩ := visible_copyColumns hsrc hsw hw n (s + 1) (d + 1)
        (hr.writeGlyph d cp (.inl rfl) (src.attrAt s)) (by omega) (by omega) (fun hn => hnext (by omega) (by omega))
      simp only [h1, Nat.cast_one]
      refine ⟨⟨[cp], 1, src.attrAt s⟩ :: run, ?_, fun i hi => ?_, ?_⟩
      · rw [hvis, visible_writeNarrow hr (by omega)]
        exact overwriteCells_append (by simp [Closed]) (by simp)
      · cases i with
        | zero => simp [copiedCell, cellAt, h1, hcp]
        | succ i =>
          have := copiedCell_shift src s n (w - (d + 1)) 1 i
          rw [List.getElem?_cons_succ, hrun.cell i (by omega), show w - d = w - (d + 1) + 1 by omega, this]
      · have := hrun.length
        rw [List.length_cons, show s + (n + 1) - 1 = s + 1 + n - 1 by omega]
        omega
    · simp only [h2, Nat.cast_ofNat]
      cases n with
      | zero =>
        rcases Nat.lt_or_ge (d + 1) w with hd1 | hd1
        · refine ⟨[⟨[cp], 2, src.attrAt s⟩, ⟨[cp], 0, src.attrAt s⟩], ?_, fun i hi => ?_, .inr ⟨rfl, by omega, h2, by omega⟩⟩
          · simpa [copyColumns] using visible_writeWide hr hd1 cp (src.attrAt s)
          · obtain rfl : i = 0 := by omega
            simp [copiedCell, cellAt, h2, hcp, show ¬ 1 = w - d by omega]
        · obtain ⟨gs, as, hs⟩ := id hr
          refine ⟨[⟨[cp], 1, src.attrAt s⟩], ?_, fun i hi => ?_, .inl rfl⟩
          · rw [writeGlyph_clamp (by rw [hs.width_eq]; omega)]
            simpa [copyColumns] using visible_writeNarrow hr (by omega) cp (src.attrAt s)
          · obtain rfl : i = 0 := by omega
            have hroom : w - d = 1 := by omega
            simp [copiedCell, cellAt, h2, hcp, hroom]
      | succ n =>
        have hskip (x : ScreenBufferRow) : copyColumn src (s + 1) (d + 1) x 0 = x := by
          rw [copyColumn, Nat.add_zero, u16_of_lt (show s + 1 < 0x10000 by omega)]
          simp only [htr, if_true]
        obtain ⟨run, hvis, hrun⟩ := visible_copyColumns hsrc hsw hw n (s + 2) (d + 2)
          (hr.writeGlyph d cp (.inr rfl) (src.attrAt s)) (by omega) (by omega) (fun hn => hnext (by omega) (by omega))
        rw [copyColumns_succ, hskip]
        refine ⟨⟨[cp], 2, src.attrAt s⟩ :: ⟨[cp], 0, src.attrAt s⟩ :: run, ?_, fun i hi => ?_, ?_⟩
        · rw [hvis, visible_writeWide hr (by omega)]
          exact overwriteCells_append (by simp [Closed]) (by simp)
        · rcases i with _ | _ | i
          · simp [copiedCell, cellAt, h2, hcp]
          · simp [copiedCell, cellAt, hw0, hcp']
          · have := copiedCell_shift src s n (w - (d + 2)) 2 i
            rw [List.getElem?_cons_succ, List.getElem?_cons_succ, hrun.cell i (by omega),
              show w - d = w - (d + 2) + 2 by omega, this]
        · have := hrun.length
          rw [List.length_cons, List.length_cons, show s + (n + 1 + 1) - 1 = s + 2 + n - 1 by omega]
          omega
    · rw [ht] at h
      exact absurd h (by simp)

/-- The row after columns of `src` have been copied to it. -/
theorem cellAt_copyFrom (hr : r.ShowsSome w) (hsrc : src.ShowsSome sw) {s d n : Nat} (hs : s + n ≤ sw) (hd : d + n ≤ w)
    (ht : 0 < n → src.isTrailing s = false) {c : Nat} (hc : c < w) :
    (d ≤ c ∧ c < d + n → (r.copyFrom src s d n).cellAt c = copiedCell src s n (w - d) (c - d)) ∧
    (c < d ∨ n = 0 ∨ (src.cellAt (s + n - 1)).cols ≠ 2 ∨ d + n = w → ¬ (d ≤ c ∧ c < d + n) →
      (r.copyFrom src s d n).cellAt c =
        if 0 < n ∧ (c + 1 = d ∧ (r.cellAt c).cols = 2 ∨ c = d + n ∧ (r.cellAt c).cols = 0) then (r.cellAt c).cut
        else r.cellAt c) := by
  have hx := hr.copyFrom hsrc s d n
  obtain ⟨gs, as, hrs⟩ := id hr
  obtain ⟨sgs, sas, hss⟩ := id hsrc
  obtain ⟨xgs, xas, hxs⟩ := id hx
  have heq : r.copyFrom src s d n = copyColumns src s d n r :=
    copyFrom_eq_copyColumns (by rw [hss.width_eq]; exact hs) (by rw [hrs.width_eq]; exact hd)
  obtain ⟨run, hvis, hrun⟩ := visible_copyColumns hsrc hss.width_le hrs.width_le n s d hr hs hd ht
  have hold := getElem?_visible r (show c < r.width by rw [hrs.width_eq]; exact hc)
  have hnew := getElem?_visible (r.copyFrom src s d n) (show c < _ by rw [hxs.width_eq]; exact hc)
  rw [← heq] at hvis
  rw [hvis, getElem?_overwriteCells, hold, Option.map_some, Option.some_inj] at hnew
  rw [← hnew]
  refine ⟨fun hin => ?_, fun hspill hout => ?_⟩
  · have hcell := hrun.cell (c - d) (by omega)
    have hlen := (List.getElem?_eq_some_iff.mp hcell).1
    rw [overwriteCell, if_pos (by omega), List.getD_eq_getElem?_getD, hcell, Option.getD_some]
  · have hlen := hrun.length
    have hne : run ≠ [] ↔ 0 < n := by rw [← List.length_pos_iff]; omega
    have hend : c = d + run.length ↔ c = d + n := by omega
    rw [overwriteCell, if_neg (by omega)]
    simp only [hne, hend]
    split_ifs <;> first | rfl | omega

/-! ## Columns moved through a saved row -/

/-- What a column of the source becomes in a saved row of blanks. -/
def savedCell (src : ScreenBufferRow) (s : Nat) (fill : TextAttribute) (i : Nat) : Cell :=
  let cell := src.cellAt (s + i)
  if cell.cols = 0 then if i = 0 then ⟨[0x20], 1, fill⟩ else { cell with attr := src.attrAt (s + i - 1) }
  else cell

theorem savedCell_lead (src : ScreenBufferRow) (s : Nat) (fill : TextAttribute) (i : Nat) :
    (savedCell src s fill i).cols = 2 ↔ (src.cellAt (s + i)).cols = 2 := by
  unfold savedCell
  by_cases hz : (src.cellAt (s + i)).cols = 0
  · rw [if_pos hz, hz]
    split <;> simp
  · rw [if_neg hz]

theorem savedCell_trail {src : ScreenBufferRow} {s : Nat} {fill : TextAttribute} {i : Nat}
    (h : (savedCell src s fill i).cols = 0) :
    (src.cellAt (s + i)).cols = 0 ∧ i ≠ 0 := by
  unfold savedCell at h
  by_cases hz : (src.cellAt (s + i)).cols = 0
  · rw [if_pos hz] at h
    refine ⟨hz, fun hi => ?_⟩
    simp [hi] at h
  · rw [if_neg hz] at h
    exact absurd h hz

/-- The columns `s, …, s + n - 1` of `src` in a row of blanks. -/
abbrev savedColumns (w : Nat) (fill : TextAttribute) (src : ScreenBufferRow) (s n : Nat) (r₀ : ScreenBufferRow) :
    ScreenBufferRow := (r₀.resetFill w 0x20 fill).copyFrom src s 0 n

theorem cellAt_savedColumns (hsrc : src.ShowsSome w) (fill : TextAttribute) {s n : Nat} (hs : s + n ≤ w) (r₀ : ScreenBufferRow)
    {i : Nat} (hi : i < n) : (savedColumns w fill src s n r₀).cellAt i = savedCell src s fill i := by
  obtain ⟨gs, as, hss⟩ := id hsrc
  have hwl := hss.width_le
  have hblank := Shows.resetFill r₀ hwl 0x20 fill
  have hrow : (r₀.resetFill w 0x20 fill).ShowsSome w := ⟨_, _, hblank⟩
  have hcell (c : Nat) (hc : c < w) : (r₀.resetFill w 0x20 fill).cellAt c = ⟨[0x20], 1, fill⟩ := by
    have := hblank.cellAt_eq hc
    simpa [List.getElem?_replicate_of_lt hc, toCell, halfCols, hc] using this
  unfold savedColumns
  have hlast : (src.cellAt (s + i)).cols = 2 → s + i + 1 < w := by
    intro h2
    obtain ⟨-, -, ⟨h, -⟩ | ⟨-, -, h, -⟩ | ⟨h, -⟩⟩ := hsrc.cell_cases (show s + i < w by omega)
    · exact absurd (h.symm.trans h2) (by decide)
    · exact h
    · exact absurd (h.symm.trans h2) (by decide)
  by_cases ht : src.isTrailing s = true
  · -- the first column is not copied
    obtain ⟨cp, -, ⟨-, h⟩ | ⟨-, h, -⟩ | ⟨hw0, -, h0, -⟩⟩ := hsrc.cell_cases (show s < w by omega)
    · exact absurd (ht.symm.trans h) (by decide)
    · exact absurd (ht.symm.trans h) (by decide)
    · obtain ⟨n, rfl⟩ := Nat.exists_eq_add_of_le' (show 1 ≤ n by omega)
      have hskip : (r₀.resetFill w 0x20 fill).copyFrom src s 0 (n + 1) = (r₀.resetFill w 0x20 fill).copyFrom src (s + 1) 1 n := by
        rw [copyFrom_eq_copyColumns (by rw [hss.width_eq]; exact hs) (by rw [hblank.width_eq]; omega),
          copyFrom_eq_copyColumns (by rw [hss.width_eq]; omega) (by rw [hblank.width_eq]; omega), copyColumns_succ]
        congr 1
        rw [copyColumn, Nat.add_zero, u16_of_lt (show s < 0x10000 by omega)]
        simp only [ht, if_true]
      have hnext : 0 < n → src.isTrailing (s + 1) = false := fun hn => by
        obtain ⟨-, -, ⟨-, h⟩ | ⟨-, h, -⟩ | ⟨-, -, -, h, -⟩⟩ := hsrc.cell_cases (show s + 1 < w by omega)
        · exact h
        · exact h
        · exact absurd (h.symm.trans hw0) (by decide)
      have hcopy := cellAt_copyFrom hrow hsrc (s := s + 1) (d := 1) (n := n) (by omega) (by omega) hnext (c := i) (by omega)
      rw [hskip]
      cases i with
      | zero =>
        have hw0' : (src.cellAt (s + 0)).cols = 0 := hw0
        rw [hcopy.2 (.inl (by omega)) (by omega), hcell 0 (by omega), savedCell, if_pos hw0', if_pos rfl]
        simp
      | succ i =>
        rw [hcopy.1 (by omega), Nat.add_sub_cancel, copiedCell, savedCell, show s + (i + 1) = s + 1 + i by omega]
        simp only [Nat.succ_ne_zero, if_false]
        split_ifs <;> first | rfl | omega
  · rw [Bool.not_eq_true] at ht
    have hcopy := cellAt_copyFrom hrow hsrc (s := s) (d := 0) (n := n) hs (by omega) (fun _ => ht) (c := i) (by omega)
    rw [hcopy.1 (by omega), Nat.sub_zero, Nat.sub_zero, copiedCell, savedCell]
    have h0 : i = 0 → (src.cellAt (s + i)).cols ≠ 0 := by
      rintro rfl h
      obtain ⟨-, -, ⟨h', -⟩ | ⟨h', -⟩ | ⟨-, h', -⟩⟩ := hsrc.cell_cases (show s < w by omega)
      · exact absurd (h'.symm.trans h) (by decide)
      · exact absurd (h'.symm.trans h) (by decide)
      · exact absurd (h'.symm.trans ht) (by decide)
    by_cases hz : (src.cellAt (s + i)).cols = 0
    · rw [if_pos hz, if_pos hz, if_neg fun h => h0 h hz]
    · rw [if_neg hz, if_neg hz]
      split_ifs <;> first | rfl | omega

/-- What a column of the source becomes in the row that the saved columns are
copied to, with `room` columns left. -/
def movedCell (src : ScreenBufferRow) (s n room : Nat) (fill : TextAttribute) (i : Nat) : Cell :=
  let cell := savedCell src s fill i
  if cell.cols = 2 ∧ i + 1 = n ∧ n = room then { cell with cols := 1 } else cell

/-- The row after saved columns have been copied to it. -/
theorem cellAt_moveColumns (hr : r.ShowsSome w) (hsrc : src.ShowsSome w) (fill : TextAttribute) {s d n : Nat}
    (hs : s + n ≤ w) (hd : d + n ≤ w) (r₀ : ScreenBufferRow) {c : Nat} (hc : c < w) :
    let r' := r.copyFrom (savedColumns w fill src s n r₀) 0 d n
    (d ≤ c ∧ c < d + n → r'.cellAt c = movedCell src s n (w - d) fill (c - d)) ∧
    (n = 0 ∨ (src.cellAt (s + n - 1)).cols ≠ 2 ∨ d + n = w → ¬ (d ≤ c ∧ c < d + n) →
      r'.cellAt c =
        if 0 < n ∧ (c + 1 = d ∧ (r.cellAt c).cols = 2 ∨ c = d + n ∧ (r.cellAt c).cols = 0) then (r.cellAt c).cut
        else r.cellAt c) := by
  intro r'
  obtain ⟨gs, as, hss⟩ := id hsrc
  have hsaved : (savedColumns w fill src s n r₀).ShowsSome w :=
    ShowsSome.copyFrom ⟨_, _, Shows.resetFill r₀ hss.width_le 0x20 fill⟩ hsrc s 0 n
  have hfirst : 0 < n → (savedColumns w fill src s n r₀).isTrailing 0 = false := fun hn => by
    obtain ⟨-, -, ⟨-, h⟩ | ⟨-, h, -⟩ | ⟨-, -, h, -⟩⟩ := hsaved.cell_cases (show 0 < w by omega)
    · exact h
    · exact h
    · exact absurd h (by decide)
  obtain ⟨hin, hout⟩ := cellAt_copyFrom hr hsaved (s := 0) (d := d) (n := n) (by omega) hd hfirst hc
  refine ⟨fun h => ?_, fun h => hout (.inr ?_)⟩
  · have hcell := cellAt_savedColumns hsrc fill hs r₀ (show c - d < n by omega)
    rw [hin h, copiedCell, movedCell, Nat.zero_add, hcell]
    by_cases hz : (savedCell src s fill (c - d)).cols = 0
    · -- the attribute of the first half is the attribute already
      have hz' := savedCell_trail hz
      obtain ⟨-, -, ⟨h', -⟩ | ⟨h', -⟩ | ⟨-, -, -, h', -⟩⟩ := hsrc.cell_cases (show s + (c - d) < w by omega)
      · exact absurd (h'.symm.trans hz'.1) (by decide)
      · exact absurd (h'.symm.trans hz'.1) (by decide)
      · have hprev := congrArg Cell.attr (cellAt_savedColumns hsrc fill hs r₀ (show c - d - 1 < n by omega))
        have hlead : (src.cellAt (s + (c - d - 1))).cols = 2 := by
          rw [show s + (c - d - 1) = s + (c - d) - 1 by omega]
          exact h'
        rw [savedCell, if_neg (by rw [hlead]; decide)] at hprev
        rw [if_pos hz, if_neg (by omega), savedCell, if_pos hz'.1, if_neg hz'.2]
        simp only [cellAt] at hprev ⊢
        rw [hprev, show s + (c - d - 1) = s + (c - d) - 1 by omega]
    · rw [if_neg hz]
  · rcases h with h | h | h
    · exact .inl h
    · rcases Nat.eq_zero_or_pos n with hn | hn
      · exact .inl hn
      · refine .inr (.inl fun h2 => h ?_)
        rw [Nat.zero_add, cellAt_savedColumns hsrc fill hs r₀ (show n - 1 < n by omega), savedCell_lead] at h2
        rwa [show s + n - 1 = s + (n - 1) by omega]
    · exact .inr (.inr h)

end Corehost.ScreenBufferRow
