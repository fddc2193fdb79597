import Corehost.Row.Copy

/-!
# Rows as `CHAR_INFO` cells

`to_char_info` and `from_char_info` (`screen_buffer_row.hpp`) carry one UTF-16
unit, an attribute and the half of a wide glyph for each column.

* `importCell_exportCell`: what the import does with an exported column;
* `Restored`: a row into which the first columns of a range have been imported;
* `char_info_round_trip`: an exported range, imported over narrow characters,
  gives the row back. This includes the halves of wide glyphs outside of it.
-/

namespace Corehost.ScreenBufferRow

open Lib Lib.Strip

variable {r x x' : ScreenBufferRow} {w a b c d : Nat}

/-! ## Single writes, cell by cell -/

theorem cellAt_of_visible (hr : r.width = w) (hx : x.width = w) {col : Nat} {run : List Cell}
    (hv : x.visible = overwriteCells r.visible col run) (hd : d < w) : x.cellAt d = overwriteCell col run d (r.cellAt d) := by
  have hnew := getElem?_visible x (show d < x.width by omega)
  rw [hv, getElem?_overwriteCells, getElem?_visible r (by omega), Option.map_some, Option.some_inj] at hnew
  exact hnew.symm

/-- A narrow character, which cuts the glyphs it meets. -/
theorem cellAt_writeNarrow (h : r.ShowsSome w) (hc : c < w) (cp : Char32) (attr : TextAttribute) (hd : d < w) :
    (r.writeGlyph c [cp] 1 attr).cellAt d =
      if d = c then ⟨[cp], 1, attr⟩
      else if d + 1 = c ∧ (r.cellAt d).cols = 2 ∨ d = c + 1 ∧ (r.cellAt d).cols = 0 then (r.cellAt d).cut
      else r.cellAt d := by
  rw [cellAt_of_visible h.width_eq (h.writeGlyph c cp (.inl rfl) attr).width_eq (visible_writeNarrow h hc cp attr) hd,
    overwriteCell, List.length_singleton]
  simp only [ne_eq, List.cons_ne_nil, not_false_eq_true, true_and]
  split_ifs <;> first | rfl | omega | skip
  rw [show d - c = 0 by omega]
  rfl

/-- A glyph whose columns begin and end with glyphs of the row cuts nothing. -/
theorem cellAt_writeAligned (h : r.ShowsSome w) (g : Glyph Char32) (hc : c + g.cols ≤ w) (attr : TextAttribute)
    (hfirst : (r.cellAt c).cols ≠ 0) (hlast : (r.cellAt (c + g.cols - 1)).cols ≠ 2) (hd : d < w) :
    (r.writeGlyph c [g.char] g.cols attr).cellAt d =
      if d = c then ⟨[g.char], g.cols, attr⟩ else if g.wide = true ∧ d = c + 1 then ⟨[g.char], 0, attr⟩ else r.cellAt d := by
  have hn : (g.cols : Int) = 1 ∨ (g.cols : Int) = 2 := by
    have h1 := g.cols_pos
    have h2 := g.cols_le
    omega
  have hcut1 : d + 1 = c → (r.cellAt d).cols ≠ 2 := by
    rintro rfl h2
    exact hfirst (h.trail_of_lead hd h2).2.1
  have hcut2 : d = c + g.cols → (r.cellAt d).cols ≠ 0 := by
    rintro rfl h0
    exact hlast (h.lead_of_trail hd h0).2.1
  have hlen : (runCells attr [(g.char, g.cols)]).length = g.cols := by
    have := length_runCells attr [g]
    simpa using this
  have hcell : (r.writeGlyph c [g.char] g.cols attr).cellAt d =
      if c ≤ d ∧ d < c + g.cols then (runCells attr [(g.char, g.cols)]).getD (d - c) (r.cellAt d) else r.cellAt d := by
    rw [cellAt_of_visible h.width_eq (h.writeGlyph c g.char hn attr).width_eq (visible_writeGlyph h g hc attr) hd,
      overwriteCell, hlen]
    refine if_congr Iff.rfl rfl ?_
    rw [if_neg (fun hh => hcut1 hh.1 hh.2.2), if_neg (fun hh => hcut2 hh.1 hh.2.2)]
  rw [hcell]
  rcases Nat.lt_trichotomy d c with hlt | rfl | hgt
  · rw [if_neg (by omega), if_neg (by omega), if_neg (by omega)]
  · have hpos := g.cols_pos
    rw [if_pos (by omega), if_pos rfl, Nat.sub_self]
    cases hwide : g.wide <;> simp [runCells, Glyph.cols, hwide]
  · rw [if_neg (show ¬ d = c by omega)]
    cases hwide : g.wide
    · rw [Glyph.cols, hwide, if_neg (by simp; omega), if_neg (by simp)]
    · rw [Glyph.cols, hwide, if_pos rfl]
      by_cases hd1 : d = c + 1
      · rw [if_pos (by omega), if_pos ⟨rfl, hd1⟩, hd1, Nat.add_sub_cancel_left]
        rfl
      · rw [if_neg (by omega), if_neg (fun hh => hd1 hh.2)]

theorem ShowsSome.cellAt_setAttr (h : r.ShowsSome w) (c : Nat) (attr : TextAttribute) (hd : d < w) :
    (r.setAttr c attr).cellAt d = if d = c then { r.cellAt d with attr := attr } else r.cellAt d := by
  obtain ⟨gs, as, h⟩ := h
  have hset := (h.setAttr c attr).1
  have hlen := h.length_attrs
  have hold := h.cellAt_eq hd
  have hnew := hset.cellAt_eq hd
  have hlt : d < (cells gs).length := by rw [length_cells, h.cols_eq]; exact hd
  rw [List.getElem?_eq_getElem hlt, Option.map_some, Option.some_inj] at hold hnew
  rw [hold, hnew, List.getD_eq_getElem?_getD, List.getElem?_set]
  by_cases hdc : d = c
  · rw [if_pos hdc.symm, if_pos (by omega), if_pos hdc]
    rfl
  · rw [if_neg (Ne.symm hdc), if_neg hdc, ← List.getD_eq_getElem?_getD]

/-- A wide character whose columns have two attributes. -/
theorem cellAt_writeWide (h : r.ShowsSome w) (hc : c + 1 < w) (cp : Char32) (attr attr' : TextAttribute)
    (hfirst : (r.cellAt c).cols ≠ 0) (hlast : (r.cellAt (c + 1)).cols ≠ 2) (hd : d < w) :
    ((r.writeGlyph c [cp] 2 attr).setAttr (c + 1) attr').cellAt d =
      if d = c then ⟨[cp], 2, attr⟩ else if d = c + 1 then ⟨[cp], 0, attr'⟩ else r.cellAt d := by
  have hwrite := cellAt_writeAligned h ⟨cp, true⟩ (show c + 2 ≤ w from hc) attr hfirst hlast hd
  rw [(h.writeGlyph c cp (.inr rfl) attr).cellAt_setAttr (c + 1) attr' hd]
  simp only [Glyph.cols_double, true_and] at hwrite
  rw [show (2 : Int) = ((2 : Nat) : Int) from rfl, hwrite]
  split_ifs <;> first | rfl | omega

/-! ## Exported cells -/

def exportFlags (cell : Cell) : UInt16 :=
  if cell.cols = 0 then COMMON_LVB_TRAILING_BYTE else if cell.cols = 2 then COMMON_LVB_LEADING_BYTE else 0

theorem dbcsFlags_eq (h : r.ShowsSome w) (hw : w ≤ 0x7FFF) (hc : c < w) : r.dbcsFlags c = exportFlags (r.cellAt c) := by
  have hwidth := h.width_eq
  rw [dbcsFlags, exportFlags, h.isTrailing_eq hc, hwidth, u16_of_lt (by omega)]
  by_cases h0 : (r.cellAt c).cols = 0
  · simp [h0]
  · have hlead : (c + 1 < w ∧ r.isTrailing (c + 1) = true) ↔ (r.cellAt c).cols = 2 := by
      constructor
      · rintro ⟨hlt, ht⟩
        rw [h.isTrailing_eq hlt, decide_eq_true_eq] at ht
        exact (h.lead_of_trail hlt ht).2.1
      · intro h2
        obtain ⟨hlt, ht, -⟩ := h.trail_of_lead hc h2
        exact ⟨hlt, by rw [h.isTrailing_eq hlt, ht]; rfl⟩
    simp [h0, hlead]

/-- The exported cell of a column with a character of one UTF-16 unit. -/
theorem getElem?_toCharInfo (h : r.ShowsSome w) (hw : w ≤ 0x7FFF) (hc : c < w) {cp : Char32} (hcp : (r.cellAt c).glyph = [cp])
    (hmax : cp ≤ 0xFFFF) :
    r.toCharInfo[c]? = some ⟨cp, (r.cellAt c).attr.legacy ||| exportFlags (r.cellAt c)⟩ := by
  change r.glyphAt c = [cp] at hcp
  rw [toCharInfo, List.getElem?_map, h.width_eq, List.getElem?_range hc, Option.map_some, hcp, dbcsFlags_eq h hw hc]
  dsimp only
  rw [if_pos hmax]
  rfl

theorem and_mask (word f : UInt16) {m : UInt16} (hm : ~~~COMMON_LVB_SBCSDBCS &&& m = 0) :
    ((TextAttribute.ofWord word).legacy ||| f) &&& m = f &&& m := by
  have h : ((TextAttribute.ofWord word).legacy ||| f) &&& m = (word &&& ~~~COMMON_LVB_SBCSDBCS &&& m) ||| (f &&& m) :=
    UInt16.toBitVec_inj.1 (BitVec.and_or_distrib_right ..)
  rw [h, UInt16.and_assoc, hm, UInt16.and_zero, UInt16.zero_or]

theorem ofWord_export (word : UInt16) (cell : Cell) :
    TextAttribute.ofWord ((TextAttribute.ofWord word).legacy ||| exportFlags cell) = .ofWord word := by
  have hf : exportFlags cell &&& ~~~COMMON_LVB_SBCSDBCS = 0 := by
    unfold exportFlags
    split_ifs <;> decide
  have h : ((TextAttribute.ofWord word).legacy ||| exportFlags cell) &&& ~~~COMMON_LVB_SBCSDBCS =
      (word &&& ~~~COMMON_LVB_SBCSDBCS &&& ~~~COMMON_LVB_SBCSDBCS) ||| (exportFlags cell &&& ~~~COMMON_LVB_SBCSDBCS) :=
    UInt16.toBitVec_inj.1 (BitVec.and_or_distrib_right ..)
  refine congrArg TextAttribute.mk (h.trans ?_)
  rw [hf, UInt16.and_assoc, UInt16.and_self, UInt16.or_zero]

/-- The import of an exported cell: a first half puts the whole glyph back, a
second half its attribute, and the glyph as well when the range begins there. -/
theorem importCell_exportCell (hx : x.width = w) (hw : w ≤ 0x7FFF) {i : Nat} (hc : a + i < w) {cell : Cell} {cp : Char32}
    (hcp : cp ≠ 0 ∧ ¬ (0xD800 ≤ cp ∧ cp ≤ 0xDBFF)) {word : UInt16} (hattr : cell.attr = .ofWord word)
    (hcols : cell.cols = 0 ∨ cell.cols = 1 ∨ cell.cols = 2) (hlead : cell.cols = 2 → a + i + 1 < w)
    (htrail : cell.cols = 0 → 0 < a + i) :
    importCell a x (⟨cp, cell.attr.legacy ||| exportFlags cell⟩, i) =
      if cell.cols = 2 then (x.writeGlyph (a + i) [cp] 2 cell.attr).setAttr (a + i + 1) (x.attrAt (a + i + 1))
      else if cell.cols = 1 then x.writeGlyph (a + i) [cp] 1 cell.attr
      else if i = 0 then (x.writeGlyph (a - 1) [cp] 2 (x.attrAt (a - 1))).setAttr a cell.attr
      else x.setAttr (a + i) cell.attr := by
  have hmask (m : UInt16) (hm : ~~~COMMON_LVB_SBCSDBCS &&& m = 0) :
      (cell.attr.legacy ||| exportFlags cell) &&& m = exportFlags cell &&& m := by
    rw [hattr]
    exact and_mask word _ hm
  have hword : TextAttribute.ofWord (cell.attr.legacy ||| exportFlags cell) = cell.attr := by
    rw [hattr]
    exact ofWord_export word cell
  have hchar : (if 0xD800 ≤ cp ∧ cp ≤ 0xDBFF then 0xFFFD else if cp = 0 then 0x20 else cp) = cp := by
    rw [if_neg hcp.2, if_neg hcp.1]
  have hbits : (exportFlags cell &&& COMMON_LVB_LEADING_BYTE != 0) = decide (cell.cols = 2) ∧
      (exportFlags cell &&& COMMON_LVB_TRAILING_BYTE != 0) = decide (cell.cols = 0) := by
    unfold exportFlags
    rcases hcols with h | h | h <;> rw [h] <;> decide
  unfold importCell
  dsimp only
  rw [hmask _ (by decide), hmask _ (by decide), hbits.1, hbits.2, hword, hchar, u16_of_lt (show a + i < 0x10000 by omega), hx,
    if_neg (fun hh => hcp.1 hh.1)]
  rcases hcols with h0 | h1 | h2
  · have hpos := htrail h0
    by_cases hi : i = 0
    · subst hi
      rw [Nat.add_zero] at hpos hc
      simp [h0, hpos, u16_of_lt (show a - 1 < 0x10000 by omega)]
    · simp [h0, hi]
  · simp [h1]
  · simp [h2, hlead h2, u16_of_lt (show a + i + 1 < 0x10000 by omega)]

/-! ## Restored columns -/

/-- The column shows the same character and half in both rows. -/
def SameGlyph (r x : ScreenBufferRow) (d : Nat) : Prop :=
  (x.cellAt d).glyph = (r.cellAt d).glyph ∧ (x.cellAt d).cols = (r.cellAt d).cols

theorem SameGlyph.trans (h : SameGlyph x x' d) (h' : SameGlyph r x d) : SameGlyph r x' d :=
  ⟨h.1.trans h'.1, h.2.trans h'.2⟩

theorem SameGlyph.of_eq (h : x'.cellAt d = x.cellAt d) : SameGlyph x x' d := ⟨congrArg Cell.glyph h, congrArg Cell.cols h⟩

/-- The columns of `x` in front of `c` have been imported, for the range from
`a` to `b` of `r`. Columns outside of the range may lack the rest of a glyph
that its edges cut. -/
structure Restored (r x : ScreenBufferRow) (w a b c : Nat) : Prop where
  shows : x.ShowsSome w
  wide : ∀ d < w, (x.cellAt d).cols = 2 → (r.cellAt d).cols = 2
  attr : ∀ d < w, ¬ (c ≤ d ∧ d < b) → (x.cellAt d).attr = (r.cellAt d).attr
  glyph : ∀ d < w, d < c ∨ b ≤ d → SameGlyph r x d ∨
    c < b ∧ (c = a ∧ d + 1 = a ∧ (r.cellAt d).cols = 2 ∨ d = b ∧ (r.cellAt d).cols = 0)
  next : a < c → c < w → (r.cellAt c).cols = 0 → SameGlyph r x c

theorem restored_self (hr : r.ShowsSome w) (a b : Nat) : Restored r r w a b a where
  shows := hr
  wide := fun _ _ h => h
  attr := fun _ _ _ => rfl
  glyph := fun _ _ _ => .inl ⟨rfl, rfl⟩
  next := fun h => absurd h (Nat.lt_irrefl a)

theorem Restored.congr (h : Restored r x w a b c) (hx' : x'.ShowsSome w) (heq : ∀ d < w, x'.cellAt d = x.cellAt d) :
    Restored r x' w a b c where
  shows := hx'
  wide d hd h2 := h.wide d hd (heq d hd ▸ h2)
  attr d hd hout := heq d hd ▸ h.attr d hd hout
  glyph d hd hout := (h.glyph d hd hout).imp_left (.trans (.of_eq (heq d hd)))
  next hac hc h0 := (SameGlyph.of_eq (heq c hc)).trans (h.next hac hc h0)

/-- A narrow character in the range, before the import. -/
theorem Restored.writeNarrow (hr : r.ShowsSome w) (h : Restored r x w a b a) (hc : a ≤ c ∧ c < b) (hb : b ≤ w) (cp : Char32)
    (attr : TextAttribute) : Restored r (x.writeGlyph c [cp] 1 attr) w a b a := by
  have hcell {d : Nat} (hd : d < w) := cellAt_writeNarrow h.shows (show c < w by omega) cp attr hd
  refine ⟨h.shows.writeGlyph c cp (.inl rfl) attr, fun d hd h2 => ?_, fun d hd hout => ?_, fun d hd hout => ?_,
    fun hlt => absurd hlt (Nat.lt_irrefl a)⟩
  · rw [hcell hd] at h2
    split_ifs at h2
    · exact absurd h2 (by simp)
    · exact absurd h2 (by simp [Cell.cut])
    · exact h.wide d hd h2
  · rw [hcell hd, if_neg (by omega)]
    split_ifs
    · exact h.attr d hd hout
    · exact h.attr d hd hout
  · have hcell := hcell hd
    rw [if_neg (by omega)] at hcell
    by_cases hcut : d + 1 = c ∧ (x.cellAt d).cols = 2 ∨ d = c + 1 ∧ (x.cellAt d).cols = 0
    · rcases hcut with ⟨hd1, h2⟩ | ⟨hd1, h0⟩
      · exact .inr ⟨by omega, .inl ⟨rfl, by omega, h.wide d hd h2⟩⟩
      · -- the first half is in the last column of the range
        obtain ⟨-, h2, -⟩ := h.shows.lead_of_trail hd h0
        obtain ⟨-, hr0, -⟩ := hr.trail_of_lead (show d - 1 < w by omega) (h.wide (d - 1) (by omega) h2)
        rw [show d - 1 + 1 = d by omega] at hr0
        exact .inr ⟨by omega, .inr ⟨by omega, hr0⟩⟩
    · rw [if_neg hcut] at hcell
      refine (h.glyph d hd hout).imp_left fun hs => ?_
      rw [SameGlyph, hcell]
      exact hs

/-- One more column. -/
theorem Restored.step (hr : r.ShowsSome w) (h : Restored r x w a b c) (hac : a ≤ c) (hc : c < b)
    (hx' : x'.ShowsSome w) (hsame : ∀ d < w, SameGlyph x x' d ∨ SameGlyph r x' d)
    (hattr : ∀ d < w, d ≠ c → (x'.cellAt d).attr = (x.cellAt d).attr) (hcell : x'.cellAt c = r.cellAt c)
    (hlead : (r.cellAt c).cols = 2 → SameGlyph r x' (c + 1))
    (htrail : (r.cellAt c).cols = 0 → c = a → SameGlyph r x' (c - 1)) : Restored r x' w a b (c + 1) := by
  have hnext : c + 1 < w → (r.cellAt (c + 1)).cols = 0 → (r.cellAt c).cols = 2 := by
    intro hlt h0
    exact (hr.lead_of_trail hlt h0).2.1
  refine ⟨hx', fun d hd h2 => ?_, fun d hd hout => ?_, fun d hd hout => ?_, fun _ hlt h0 => hlead (hnext hlt h0)⟩
  · rcases hsame d hd with hs | hs
    · exact h.wide d hd (hs.2 ▸ h2)
    · exact hs.2 ▸ h2
  · by_cases hdc : d = c
    · rw [hdc, hcell]
    · exact (hattr d hd hdc).trans (h.attr d hd (by omega))
  · by_cases hdc : d = c
    · subst hdc
      rw [SameGlyph, hcell]
      exact .inl ⟨rfl, rfl⟩
    · rcases hsame d hd with hs | hs
      · rcases h.glyph d hd (by omega) with hrx | ⟨-, ⟨hca, hda, h2⟩ | ⟨hdb, h0⟩⟩
        · exact .inl (hs.trans hrx)
        · -- the glyph that the left edge of the range cuts
          obtain ⟨-, h0, -⟩ := hr.trail_of_lead hd h2
          rw [hda, ← hca] at h0
          have hd1 : d = c - 1 := by omega
          exact .inl (hd1 ▸ htrail h0 hca)
        · by_cases hlast : c + 1 = b
          · rw [hdb, ← hlast] at h0 hd
            exact .inl (hdb ▸ hlast ▸ hlead (hnext hd h0))
          · exact .inr ⟨by omega, .inr ⟨hdb, h0⟩⟩
      · exact .inl hs

/-- A `CHAR_INFO` can carry the cells of the row. No `text_attribute` holds the
flags, since its constructor drops them. -/
structure Exportable (r : ScreenBufferRow) (w : Nat) : Prop where
  glyph : ∀ c < w, ∀ cp ∈ (r.cellAt c).glyph, cp ≠ 0 ∧ cp ≤ 0xFFFF ∧ ¬ (0xD800 ≤ cp ∧ cp ≤ 0xDFFF)
  attr : ∀ c < w, ∃ word, (r.cellAt c).attr = .ofWord word

theorem Restored.importCell (hr : r.ShowsSome w) (hw : w ≤ 0x7FFF) (he : r.Exportable w) {i : Nat}
    (h : Restored r x w a b (a + i)) (hi : a + i < b) (hb : b ≤ w) {cell : CharInfo} (hcell : r.toCharInfo[a + i]? = some cell) :
    Restored r (importCell a x (cell, i)) w a b (a + i + 1) := by
  obtain ⟨⟨cp, hcp⟩, hcols⟩ := hr.cols_cases (show a + i < w by omega)
  obtain ⟨hnul, hmax, hhigh⟩ := he.glyph (a + i) (by omega) cp (by rw [hcp]; exact List.mem_singleton_self cp)
  obtain ⟨word, hword⟩ := he.attr (a + i) (by omega)
  rw [getElem?_toCharInfo hr hw (by omega) hcp hmax, Option.some_inj] at hcell
  have hlead := hr.trail_of_lead (show a + i < w by omega)
  have htrail := hr.lead_of_trail (show a + i < w by omega)
  rw [← hcell, importCell_exportCell h.shows.width_eq hw (by omega) ⟨hnul, fun hh => hhigh ⟨hh.1, Nat.le_trans hh.2 (by decide)⟩⟩
    hword hcols
    (fun h2 => (hlead h2).1) (fun h0 => (htrail h0).1)]
  have hnotLead : (r.cellAt (a + i)).cols ≠ 2 → (x.cellAt (a + i)).cols ≠ 2 := fun hn h2 => hn (h.wide _ (by omega) h2)
  have hnotTrail : (r.cellAt (a + i)).cols ≠ 0 → (x.cellAt (a + i)).cols ≠ 0 := by
    intro hn h0
    obtain ⟨hpos, h2, -⟩ := h.shows.lead_of_trail (show a + i < w by omega) h0
    have hr0 := (hr.trail_of_lead (show a + i - 1 < w by omega) (h.wide _ (by omega) h2)).2.1
    rw [show a + i - 1 + 1 = a + i by omega] at hr0
    exact hn hr0
  rcases hcols with h0 | h1 | h2
  · obtain ⟨hpos, h2, hglyph⟩ := htrail h0
    rw [if_neg (by omega), if_neg (by omega)]
    by_cases hi0 : i = 0
    · -- the range begins with the second half: the whole glyph, one column to the left
      subst hi0
      rw [Nat.add_zero] at *
      have hfirst : (x.cellAt (a - 1)).cols ≠ 0 := by
        intro hx0
        obtain ⟨hpos', hx2, -⟩ := h.shows.lead_of_trail (show a - 1 < w by omega) hx0
        have hr0 := (hr.trail_of_lead (show a - 1 - 1 < w by omega) (h.wide _ (by omega) hx2)).2.1
        rw [show a - 1 - 1 + 1 = a - 1 by omega] at hr0
        omega
      have hnew {d : Nat} (hd : d < w) := cellAt_writeWide h.shows (show a - 1 + 1 < w by omega) cp (x.attrAt (a - 1))
        (r.cellAt a).attr hfirst (by rw [show a - 1 + 1 = a by omega]; exact hnotLead (by omega)) hd
      rw [show a - 1 + 1 = a by omega] at hnew
      have hlead' := (hnew (show a - 1 < w by omega)).trans (if_pos rfl)
      have htrail' := (hnew (show a < w by omega)).trans ((if_neg (by omega)).trans (if_pos rfl))
      rw [if_pos rfl]
      refine h.step hr (Nat.le_refl a) hi ((h.shows.writeGlyph _ cp (.inr rfl) _).setAttr _ _) (fun d hd => ?_)
        (fun d hd hne => ?_) ?_ (fun h2 => by omega) (fun _ _ => ?_)
      · by_cases hd1 : d = a - 1
        · rw [hd1, SameGlyph, SameGlyph, hlead', hglyph, hcp, h2]
          exact .inr ⟨rfl, rfl⟩
        · by_cases hda : d = a
          · rw [hda, SameGlyph, SameGlyph, htrail', hcp, h0]
            exact .inr ⟨rfl, rfl⟩
          · exact .inl (.of_eq ((hnew hd).trans ((if_neg hd1).trans (if_neg hda))))
      · by_cases hd1 : d = a - 1
        · rw [hd1, hlead']
          rfl
        · rw [hnew hd, if_neg hd1, if_neg hne]
      · rw [htrail', ← hcp, ← h0]
      · rw [SameGlyph, hlead', hglyph, hcp, h2]
        exact ⟨rfl, rfl⟩
    · have hsame := h.next (by omega) (by omega) h0
      have hnew {d : Nat} (hd : d < w) := h.shows.cellAt_setAttr (a + i) (r.cellAt (a + i)).attr hd
      rw [if_neg hi0]
      refine h.step hr (Nat.le_add_right a i) hi (h.shows.setAttr _ _) (fun d hd => .inl ?_) (fun d hd hne => ?_) ?_
        (fun h2 => by omega) (fun _ hca => by omega)
      · rw [SameGlyph, hnew hd]
        split_ifs <;> exact ⟨rfl, rfl⟩
      · rw [hnew hd, if_neg hne]
      · rw [hnew (by omega), if_pos rfl]
        exact congrArg₂ (fun glyph cols => (⟨glyph, cols, (r.cellAt (a + i)).attr⟩ : Cell)) hsame.1 hsame.2
  · have hnew {d : Nat} (hd : d < w) := cellAt_writeAligned h.shows ⟨cp, false⟩ (show a + i + 1 ≤ w by omega)
      (r.cellAt (a + i)).attr (hnotTrail (by omega)) (hnotLead (by omega)) hd
    simp only [Glyph.cols_single, Bool.false_eq_true, false_and, if_false] at hnew
    have hself : (x.writeGlyph (a + i) [cp] 1 (r.cellAt (a + i)).attr).cellAt (a + i) = r.cellAt (a + i) := by
      refine (hnew (by omega)).trans ?_
      rw [if_pos rfl, ← hcp, ← h1]
    rw [if_neg (by omega), if_pos h1]
    refine h.step hr (Nat.le_add_right a i) hi (h.shows.writeGlyph _ cp (.inl rfl) _) (fun d hd => ?_) (fun d hd hne => ?_)
      hself (fun h2 => by omega) (fun h0 => by omega)
    · by_cases hdi : d = a + i
      · rw [hdi]
        exact .inr (.of_eq hself)
      · exact .inl (.of_eq ((hnew hd).trans (if_neg hdi)))
    · exact congrArg Cell.attr ((hnew hd).trans (if_neg hne))
  · obtain ⟨hlt, hr0, hglyph⟩ := hlead h2
    have hlast : (x.cellAt (a + i + 1)).cols ≠ 2 := fun hx2 => by
      have := h.wide _ hlt hx2
      omega
    have hnew {d : Nat} (hd : d < w) := cellAt_writeWide h.shows hlt cp (r.cellAt (a + i)).attr (x.attrAt (a + i + 1))
      (hnotTrail (by omega)) hlast hd
    have hlead' := (hnew (show a + i < w by omega)).trans (if_pos rfl)
    have htrail' := (hnew hlt).trans ((if_neg (by omega)).trans (if_pos rfl))
    rw [if_pos h2]
    refine h.step hr (Nat.le_add_right a i) hi ((h.shows.writeGlyph _ cp (.inr rfl) _).setAttr _ _) (fun d hd => ?_)
      (fun d hd hne => ?_) ?_ (fun _ => ?_) (fun h0 => by omega)
    · by_cases hdi : d = a + i
      · rw [hdi, SameGlyph, SameGlyph, hlead', hcp, h2]
        exact .inr ⟨rfl, rfl⟩
      · by_cases hd1 : d = a + i + 1
        · rw [hd1, SameGlyph, SameGlyph, htrail', hglyph, hcp, hr0]
          exact .inr ⟨rfl, rfl⟩
        · exact .inl (.of_eq ((hnew hd).trans ((if_neg hdi).trans (if_neg hd1))))
    · by_cases hd1 : d = a + i + 1
      · rw [hd1, htrail']
        rfl
      · rw [hnew hd, if_neg hne, if_neg hd1]
    · rw [hlead', ← hcp, ← h2]
    · rw [SameGlyph, htrail', hglyph, hcp, hr0]
      exact ⟨rfl, rfl⟩

theorem Restored.importCells (hr : r.ShowsSome w) (hw : w ≤ 0x7FFF) (he : r.Exportable w) (hb : b ≤ w) :
    ∀ (src : List CharInfo) {x : ScreenBufferRow} {i : Nat}, Restored r x w a b (a + i) → a + i + src.length ≤ b →
    (∀ j < src.length, src[j]? = r.toCharInfo[a + i + j]?) →
    Restored r ((src.zipIdx i).foldl (ScreenBufferRow.importCell a) x) w a b (a + i + src.length)
  | [], _, _, h, _, _ => h
  | cell :: src, x, i, h, hlen, hsrc => by
    rw [List.length_cons] at hlen
    have hstep := h.importCell hr hw he (by omega) hb (hsrc 0 (Nat.succ_pos _)).symm
    have hrest := Restored.importCells hr hw he hb src (i := i + 1) hstep (by omega) fun j hj => by
      have := hsrc (j + 1) (Nat.succ_lt_succ hj)
      rwa [List.getElem?_cons_succ, show a + i + (j + 1) = a + (i + 1) + j by omega] at this
    rw [List.zipIdx_cons, List.foldl_cons, List.length_cons, show a + i + (src.length + 1) = a + (i + 1) + src.length by omega]
    exact hrest

/-- Everything is back when the whole range has been imported. -/
theorem Restored.visible_eq (hr : r.ShowsSome w) (h : Restored r x w a b b) : x.visible = r.visible := by
  rw [visible, visible, h.shows.width_eq, hr.width_eq]
  refine List.map_congr_left fun d hd => ?_
  have hd := List.mem_range.mp hd
  have hattr := h.attr d hd (by omega)
  obtain ⟨hglyph, hcols⟩ : SameGlyph r x d := by
    rcases h.glyph d hd (by omega) with hs | ⟨hbb, -⟩
    · exact hs
    · exact absurd hbb (Nat.lt_irrefl b)
  change (⟨_, _, _⟩ : Cell) = ⟨_, _, _⟩
  rw [Cell.mk.injEq]
  exact ⟨hglyph, hcols, hattr⟩

/-- A range of a row, imported again over narrow characters in that range, or
over the row itself, gives the row back. -/
theorem char_info_round_trip (h : WellFormed r w) (he : r.Exportable w) {a n : Nat} (hn : a + n ≤ w)
    (writes : List (Nat × Char32 × TextAttribute)) (hwrites : ∀ p ∈ writes, a ≤ p.1 ∧ p.1 < a + n) :
    let exported := (r.toCharInfo.drop a).take n
    ((writes.foldl (fun r p => r.writeGlyph p.1 [p.2.1] 1 p.2.2) r).fromCharInfo exported a).visible = r.visible ∧
      (r.fromCharInfo exported a).visible = r.visible := by
  intro exported
  obtain ⟨hpos, hshows⟩ := wellFormed_iff.mp h
  have hr : r.ShowsSome w := hshows
  have hlen : exported.length = n := by
    rw [List.length_take, List.length_drop, toCharInfo, List.length_map, List.length_range, hr.width_eq]
    omega
  have himport (x : ScreenBufferRow) (hx : Restored r x w a (a + n) a) : (x.fromCharInfo exported a).visible = r.visible := by
    obtain ⟨gs, as, hs⟩ := hx.shows
    have hm := hs.materializeFilled
    have hsame : ∀ d < w, x.materializeFilled.cellAt d = x.cellAt d := fun d hd =>
      Option.some_inj.mp ((hm.cellAt_eq hd).trans (hs.cellAt_eq hd).symm)
    have hall : exported.zipIdx.takeWhile (fun p => a + p.2 < x.materializeFilled.width) = exported.zipIdx := by
      rw [List.takeWhile_eq_self_iff]
      intro p hp
      have hlt := (List.mem_zipIdx' hp).1
      rw [hm.width_eq, decide_eq_true_eq]
      omega
    have hdone := Restored.importCells hr h.width_le he hn exported (i := 0)
      (hx.congr ⟨gs, as, hm⟩ hsame) (by omega) fun j hj => by
      rw [List.getElem?_take_of_lt (by omega), List.getElem?_drop, Nat.add_zero]
    rw [hlen] at hdone
    rw [fromCharInfo, hall]
    exact hdone.visible_eq hr
  refine ⟨himport _ ?_, himport r (restored_self hr a (a + n))⟩
  exact List.foldlRecOn (motive := fun x => Restored r x w a (a + n) a) _ _ (restored_self hr a (a + n)) fun x hx p hp =>
    hx.writeNarrow hr (hwrites p hp) hn p.2.1 p.2.2

/-- The second half of a wide glyph, overwritten and imported again. -/
theorem char_info_round_trip_half :
    let r := ofWidth 5 |>.writeGlyph 1 [0x4E2D] 2 ⟨0x1E⟩
    ((r.writeGlyph 2 [0x78] 1 {}).fromCharInfo ((r.toCharInfo.drop 2).take 2) 2).visible = r.visible := by
  intro r
  have hr : r.ShowsSome 5 :=
    ShowsSome.writeGlyph ⟨_, _, Shows.resetFill {} (by decide) 0x20 (.ofWord 0x07)⟩ 1 0x4E2D (.inr rfl) ⟨0x1E⟩
  have he : r.Exportable 5 :=
    ⟨by decide, fun c hc => if h : c = 1 ∨ c = 2 then ⟨0x1E, by revert c; decide⟩ else ⟨0x07, by revert c; decide⟩⟩
  exact (char_info_round_trip (wellFormed_iff.mpr ⟨by decide, hr⟩) he (by decide : 2 + 2 ≤ 5) [(2, 0x78, {})] (by decide)).1

end Corehost.ScreenBufferRow
