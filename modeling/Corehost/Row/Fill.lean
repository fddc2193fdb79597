import Corehost.Row.Acts

/-!
# Characters that are written over cells

What the linear writes of `screen_buffer` do with one row (`screen_buffer.hpp`).

* `Shows.cellAt_put`: the cells of a row whose strip has been overwritten;
* `fillCharRow`, `Shows.fillCharRow`: the cells that `fill_char` fills. It has
  cleared them before it reads their attributes;
* `writeKeep`, `Shows.writeKeep`: a character of `write_char32_linear`. Each
  column keeps its attribute.
-/

namespace Corehost.ScreenBufferRow

open Lib Lib.Strip

variable {r x : ScreenBufferRow} {w c : Nat} {gs new : List (Glyph Char32)} {as as' : List TextAttribute}

/-- A run shows its own cells. Outside, only the rest of a wide glyph that it cuts changes. -/
theorem Shows.cellAt_put (h : r.Shows w gs as) (hx : x.Shows w (put gs c new) as')
    (hc : c + cols new ≤ w) {d : Nat} (hd : d < w) :
    x.cellAt d =
      if c ≤ d ∧ d < c + cols new then toCell ((cells new).getD (d - c) (0x20, .whole), as'.getD d {})
      else if d + 1 = c ∧ (r.cellAt d).cols = 2 ∨ d = c + cols new ∧ (r.cellAt d).cols = 0 then
        { (r.cellAt d).cut with attr := as'.getD d {} }
      else { r.cellAt d with attr := as'.getD d {} } := by
  have hlt : d < (cells gs).length := by rw [length_cells, h.cols_eq]; exact hd
  have hold := h.cellAt_eq hd
  have hnew := hx.cellAt_eq hd
  rw [getElem?_cells_overwrite _ (by rw [h.cols_eq]; exact hc)] at hnew
  have hhalf : ∀ half, halfAt gs d = some half ↔ (cells gs)[d].2 = half := by
    intro half
    rw [halfAt, List.getElem?_eq_getElem hlt, Option.map_some, Option.some_inj]
  rw [List.getElem?_eq_getElem hlt] at hold hnew
  simp only [hhalf] at hnew
  generalize (cells gs)[d] = old at hold hnew
  obtain ⟨ch, half⟩ := old
  rw [Option.map_some, Option.some_inj] at hold
  rw [hold]
  simp only [toCell_cols_eq_two, toCell_cols_eq_zero]
  split_ifs at hnew ⊢ with h1 h2
  · have hin : d - c < (cells new).length := by rw [length_cells]; omega
    rw [List.getElem?_eq_getElem hin, Option.map_some, Option.some_inj] at hnew
    rw [hnew, List.getD_eq_getElem?_getD (l := cells new), List.getElem?_eq_getElem hin, Option.getD_some]
  · rw [Option.map_some, Option.some_inj] at hnew
    rw [hnew]
    rfl
  · rw [Option.map_some, Option.some_inj] at hnew
    rw [hnew]
    rfl

/-! ## Filled cells -/

/-- What `fill_char` does with the columns `start, …, start + n - 1` of a row. -/
def fillCharRow (cp : Char32) (start n : Nat) (r : ScreenBufferRow) : ScreenBufferRow :=
  let r := (List.range n).foldl (fun r i => r.clearCell (u16 (start + i))) r
  (List.range n).foldl (fun r i => r.writeGlyph (u16 (start + i)) [cp] 1 (r.attrAt (u16 (start + i)))) r

theorem foldl_writeGlyphs (cp : Char32) (a : TextAttribute) : ∀ (n : Nat) {r : ScreenBufferRow} {c : Nat}, c + n ≤ 0x10000 →
    (List.range' c n).foldl (fun r x => r.writeGlyph (u16 x) [cp] 1 a) r = r.writeGlyphs c a (List.replicate n (cp, 1))
  | 0, _, _, _ => rfl
  | n + 1, r, c, hn => by
    rw [List.range'_succ, List.foldl_cons, u16_of_lt (by omega), foldl_writeGlyphs cp a n (by omega), List.replicate_succ]
    rfl

/-- Narrow glyphs that are written one behind the other. -/
theorem Shows.writeNarrow (h : r.Shows w gs as) (cp : Char32) (a : TextAttribute) {n : Nat} (hpos : 0 < n) (hc : c + n ≤ w) :
    ((List.range' c n).foldl (fun r x => r.writeGlyph (u16 x) [cp] 1 a) r).Shows w
      (put gs c (List.replicate n ⟨cp, false⟩)) (fillRange as c (c + n) a) := by
  have hwl := h.width_le
  have hcols : cols (List.replicate n (⟨cp, false⟩ : Glyph Char32)) = n := cols_replicate_single n cp
  have hrow := h.writeGlyphs a (List.replicate n ⟨cp, false⟩) (c := c) (by rw [hcols]; exact hc)
  obtain ⟨n, rfl⟩ := Nat.exists_eq_succ_of_ne_zero (Nat.pos_iff_ne_zero.mp hpos)
  rw [List.replicate_succ, overwriteEach_eq _ _ _ (by rw [← List.replicate_succ, hcols, h.cols_eq]; exact hc),
    ← List.replicate_succ, hcols, List.map_replicate] at hrow
  rw [foldl_writeGlyphs cp a _ (by omega)]
  exact hrow

/-- A loop that writes each glyph with the attribute that it finds, over cells of one attribute. -/
theorem foldl_keepAttr (cp : Char32) (a : TextAttribute) : ∀ (n : Nat) {r : ScreenBufferRow} {gs : List (Glyph Char32)}
    {as : List TextAttribute} {c : Nat}, r.Shows w gs as → c + n ≤ w → (∀ j, c ≤ j → j < c + n → as.getD j {} = a) →
    (List.range' c n).foldl (fun r x => r.writeGlyph (u16 x) [cp] 1 (r.attrAt (u16 x))) r =
      (List.range' c n).foldl (fun r x => r.writeGlyph (u16 x) [cp] 1 a) r
  | 0, _, _, _, _, _, _, _ => rfl
  | n + 1, r, gs, as, c, h, hn, ha => by
    have hwl := h.width_le
    have hlen := h.length_attrs
    have hstep := h.writeGlyph ⟨cp, false⟩ (c := c) (by rw [Glyph.cols_single]; omega) a
    rw [Glyph.cols_single] at hstep
    rw [List.range'_succ, List.foldl_cons, List.foldl_cons, u16_of_lt (by omega), h.attrAt_eq (by omega),
      ha c (Nat.le_refl c) (by omega)]
    refine foldl_keepAttr cp a n hstep (by omega) fun j h1 h2 => ?_
    rw [List.getD_eq_getElem?_getD, fillRange, getElem?_setRange (by rw [List.length_replicate]; omega),
      List.length_replicate, if_neg (by omega), ← List.getD_eq_getElem?_getD]
    exact ha j (by omega) (by omega)

theorem put_replicate_again (h : r.Shows w gs as) {n : Nat} (hc : c + n ≤ w) (cp cp' : Char32) :
    put (put gs c (List.replicate n ⟨cp, false⟩)) c (List.replicate n ⟨cp', false⟩) =
      put gs c (List.replicate n ⟨cp', false⟩) := by
  have hhead : cols (headTo 0x20 gs c) = c := cols_headTo _ (by rw [h.cols_eq]; omega)
  have hsame (a : Char32) : cols (List.replicate n (⟨a, false⟩ : Glyph Char32)) = n := cols_replicate_single n a
  have h1 := overwrite_split (0x20 : Char32) (headTo 0x20 gs c) (List.replicate n ⟨cp, false⟩) (tailFrom 0x20 gs (c + n))
    (List.replicate n ⟨cp', false⟩) (by rw [hsame, hsame])
  have h2 (a : Char32) : put gs c (List.replicate n ⟨a, false⟩) =
      headTo 0x20 gs c ++ List.replicate n ⟨a, false⟩ ++ tailFrom 0x20 gs (c + n) := by
    rw [put, overwrite, hsame]
  rw [hhead, ← h2, ← h2] at h1
  exact h1

theorem fillRange_again {as : List TextAttribute} {c n : Nat} (a : TextAttribute) (hc : c + n ≤ as.length) :
    fillRange (fillRange as c (c + n) a) c (c + n) a = fillRange as c (c + n) a := by
  have hl := length_fillRange (l := as) a hc (Nat.le_add_right c n)
  refine List.ext_getElem? fun i => ?_
  rw [fillRange, getElem?_setRange (by rw [hl, List.length_replicate]; omega), fillRange,
    getElem?_setRange (by rw [List.length_replicate]; omega)]
  split <;> rfl

/-- `fill_char` leaves the characters, with the attribute of cleared cells. -/
theorem Shows.fillCharRow (h : r.Shows w gs as) (cp : Char32) {n : Nat} (hpos : 0 < n) (hc : c + n ≤ w) :
    (r.fillCharRow cp c n).Shows w (put gs c (List.replicate n ⟨cp, false⟩)) (fillRange as c (c + n) {}) := by
  have hlen := h.length_attrs
  have hclear := h.writeNarrow 0x20 {} hpos hc
  have hread : ∀ j, c ≤ j → j < c + n → (fillRange as c (c + n) {}).getD j {} = {} := by
    intro j h1 h2
    rw [List.getD_eq_getElem?_getD, fillRange, getElem?_setRange (by rw [List.length_replicate]; omega),
      List.length_replicate, if_pos (by omega), List.getElem?_replicate_of_lt (by omega), Option.getD_some]
  have hfill := hclear.writeNarrow cp {} hpos hc
  have hclearCells : (List.range n).foldl (fun r i => r.clearCell (u16 (c + i))) r =
      (List.range' c n).foldl (fun r x => r.writeGlyph (u16 x) [0x20] 1 {}) r := by
    rw [List.range'_eq_map_range, List.foldl_map]
    rfl
  rw [put_replicate_again h hc, fillRange_again _ (by omega), ← foldl_keepAttr cp {} n hclear hc hread,
    ← hclearCells, List.range'_eq_map_range, List.foldl_map] at hfill
  exact hfill

/-- The cells of a row that `fill_char` has filled. -/
theorem cellAt_fillCharRow (hr : r.ShowsSome w) (cp : Char32) {n : Nat} (hpos : 0 < n) (hc : c + n ≤ w) {d : Nat} (hd : d < w) :
    (r.fillCharRow cp c n).cellAt d =
      if c ≤ d ∧ d < c + n then ⟨[cp], 1, {}⟩
      else if d + 1 = c ∧ (r.cellAt d).cols = 2 ∨ d = c + n ∧ (r.cellAt d).cols = 0 then (r.cellAt d).cut
      else r.cellAt d := by
  obtain ⟨gs, as, h⟩ := hr
  have hlen := h.length_attrs
  have hcols : cols (List.replicate n (⟨cp, false⟩ : Glyph Char32)) = n := cols_replicate_single n cp
  have hattr : r.attrAt d = as.getD d {} := h.attrAt_eq hd
  have hcell := h.cellAt_put (h.fillCharRow cp hpos hc) (by rw [hcols]; exact hc) hd
  rw [hcols, cells_replicate_single, List.getD_eq_getElem?_getD (l := fillRange _ _ _ _), fillRange,
    getElem?_setRange (by rw [List.length_replicate]; omega), List.length_replicate, Nat.add_sub_cancel_left] at hcell
  rw [hcell]
  split_ifs with h1 h2
  · rw [List.getD_eq_getElem?_getD, List.getElem?_replicate_of_lt (by omega), List.getElem?_replicate_of_lt (by omega)]
    rfl
  · rw [← List.getD_eq_getElem?_getD, ← hattr]
    rfl
  · rw [← List.getD_eq_getElem?_getD, ← hattr]
    rfl

/-- The loops of `fill_char` keep the layout of a row. -/
theorem showsSome_fillCharRow (hr : r.ShowsSome w) (cp : Char32) (c n : Nat) : (r.fillCharRow cp c n).ShowsSome w := by
  unfold ScreenBufferRow.fillCharRow
  refine List.foldlRecOn (motive := fun r : ScreenBufferRow => r.ShowsSome w) _ _ ?_ fun r hr i _ =>
    hr.writeGlyph _ cp (.inl rfl) _
  exact List.foldlRecOn (motive := fun r : ScreenBufferRow => r.ShowsSome w) _ _ hr fun r hr i _ =>
    hr.writeGlyph _ 0x20 (.inl rfl) _

/-! ## Characters that keep the attributes -/

/-- A character of `n` columns from column `col` on, where `next` is the column behind it. -/
def writeKeep (r : ScreenBufferRow) (col next : Nat) (ch : Char32) (n : Int) : ScreenBufferRow :=
  let nextAttr := r.attrAt next
  let r := r.writeGlyph col [ch] n (r.attrAt col)
  if n = 2 then r.setAttr next nextAttr else r

/-- The first column keeps its attribute, and the second one gets its own back. -/
theorem fillRange_keep {as : List TextAttribute} {c n : Nat} (hn : n = 1 ∨ n = 2) (hc : c + n ≤ as.length) :
    (fillRange as c (c + n) (as.getD c {})).set (c + n - 1) (as.getD (c + n - 1) {}) = as := by
  have hl := length_fillRange (l := as) (as.getD c {}) hc (Nat.le_add_right c n)
  refine List.ext_getElem? fun i => ?_
  rw [List.getElem?_set, hl, fillRange, getElem?_setRange (by rw [List.length_replicate]; omega), List.length_replicate]
  split_ifs with h1 h2 h3
  · obtain rfl := h1
    rw [List.getD_eq_getElem?_getD, List.getElem?_eq_getElem h2, Option.getD_some]
  · omega
  · obtain rfl : i = c := by omega
    rw [List.getElem?_replicate_of_lt (by omega), List.getD_eq_getElem?_getD, List.getElem?_eq_getElem (by omega),
      Option.getD_some]
  · rfl

theorem Shows.writeKeep (h : r.Shows w gs as) (g : Glyph Char32) (hc : c + g.cols ≤ w) :
    (r.writeKeep c (c + 1) g.char g.cols).Shows w (put gs c [g]) as := by
  have hlen := h.length_attrs
  obtain ⟨ch, wide⟩ := g
  cases wide
  · rw [Glyph.cols_single] at hc
    have hwrite := h.writeGlyph ⟨ch, false⟩ hc (r.attrAt c)
    have hkeep := fillRange_keep (.inl rfl) (by omega : c + 1 ≤ as.length)
    rw [Nat.add_sub_cancel, fillRange_one _ (by omega), List.set_set] at hkeep
    rw [Glyph.cols_single, h.attrAt_eq (by omega), fillRange_one _ (by omega), hkeep] at hwrite
    unfold ScreenBufferRow.writeKeep
    rw [h.attrAt_eq (c := c) (by omega)]
    exact hwrite
  · rw [Glyph.cols_double] at hc
    have hset := ((h.writeGlyph ⟨ch, true⟩ hc (r.attrAt c)).setAttr (c + 1) (r.attrAt (c + 1))).1
    have hkeep := fillRange_keep (.inr rfl) (by omega : c + 2 ≤ as.length)
    rw [Glyph.cols_double, h.attrAt_eq (by omega), h.attrAt_eq (by omega)] at hset
    rw [Nat.add_sub_assoc (by decide : 1 ≤ 2)] at hkeep
    rw [hkeep] at hset
    unfold ScreenBufferRow.writeKeep
    rw [h.attrAt_eq (by omega), h.attrAt_eq (by omega)]
    exact hset

/-- A wide character in the last column takes one column. -/
theorem Shows.writeKeep_edge (h : r.Shows w gs as) (ch : Char32) (hc : c + 1 = w) :
    (r.writeKeep c (c + 1) ch 2).Shows w (put gs c [⟨ch, false⟩]) as := by
  have hlen := h.length_attrs
  have hone := h.writeKeep ⟨ch, false⟩ (c := c) (by rw [Glyph.cols_single]; omega)
  have hset := (hone.setAttr (c + 1) (r.attrAt (c + 1))).1
  rw [List.set_eq_of_length_le (by omega)] at hset
  unfold ScreenBufferRow.writeKeep
  rw [writeGlyph_clamp (by rw [h.width_eq]; omega)]
  exact hset

end Corehost.ScreenBufferRow
