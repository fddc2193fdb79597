import Corehost.Row.Layout

/-!
# Attributes and materialisation

The operations of a row that leave its glyphs alone: the attribute writes, and
the changes of representation. `SameGlyphs` says that an operation touches
nothing but the attributes; `attrList_writeAttrRange` and `Shows.setAttr` say
what it does to them, whether or not they are stored uniformly.
-/

namespace Corehost.ScreenBufferRow

open Lib Lib.Strip

variable {r r' : ScreenBufferRow} {w : Nat} {gs : List (Glyph Char32)} {as : List TextAttribute}

/-- `r'` differs from `r` in its attributes only. -/
structure SameGlyphs (r r' : ScreenBufferRow) : Prop where
  filled : r'.filled = r.filled
  single : r'.singleWidthLayout = r.singleWidthLayout
  fillChar : r'.fillChar = r.fillChar
  text : r'.text = r.text
  columns : r'.columns = r.columns

theorem SameGlyphs.refl (r : ScreenBufferRow) : SameGlyphs r r := ⟨rfl, rfl, rfl, rfl, rfl⟩

theorem SameGlyphs.width (h : SameGlyphs r r') : r'.width = r.width := by
  simp only [ScreenBufferRow.width, h.columns]

theorem SameGlyphs.explicit (h : SameGlyphs r r') (he : Explicit r w gs) : Explicit r' w gs :=
  ⟨h.filled.trans he.notFilled, h.single.trans he.notSingle, he.width_le, he.cols_eq, h.text.trans he.text_eq,
    h.columns.trans he.columns_eq⟩

theorem SameGlyphs.showsGlyphs (h : SameGlyphs r r') (hg : ShowsGlyphs r w gs) : ShowsGlyphs r' w gs := by
  cases hg with
  | filled hf hg => exact .filled (h.filled.trans hf) (by rw [hg, h.fillChar])
  | single hf hs ht hg => exact .single (h.filled.trans hf) (h.single.trans hs) (by rw [h.text, ht]) (by rw [hg, h.text])
  | explicit he => exact .explicit (h.explicit he)

/-! ## Attribute ranges -/

theorem fillRange_replicate (w s e : Nat) (a : TextAttribute) (hs : s ≤ e) (he : e ≤ w) :
    fillRange (List.replicate w a) s e a = List.replicate w a := by
  simp only [fillRange, setRange, List.length_replicate, List.take_replicate, List.drop_replicate]
  simp only [← List.replicate_add]
  congr 1; omega

theorem fillRange_all (as : List TextAttribute) (a : TextAttribute) :
    fillRange as 0 as.length a = List.replicate as.length a := by
  simp [fillRange, setRange]

theorem fillRange_empty (as : List TextAttribute) (s : Nat) (a : TextAttribute) : fillRange as s s a = as := by
  simp [fillRange, setRange]

theorem fillRange_one {as : List TextAttribute} {c : Nat} (a : TextAttribute) (h : c < as.length) :
    fillRange as c (c + 1) a = as.set c a := by
  simp [fillRange, setRange, List.set_eq_take_append_cons_drop, h]

theorem fillRange_succ {as : List TextAttribute} {s e : Nat} (a : TextAttribute) (hs : s ≤ e) (he : e < as.length) :
    (fillRange as s e a).set e a = fillRange as s (e + 1) a := by
  have hl := length_fillRange (l := as) a (show e ≤ as.length by omega) hs
  have hl' := length_fillRange (l := as) a (show e + 1 ≤ as.length by omega) (show s ≤ e + 1 by omega)
  refine List.ext_getElem? fun i => ?_
  rw [List.getElem?_set, hl]
  simp only [fillRange]
  rw [getElem?_setRange (by simp; omega), getElem?_setRange (by simp; omega)]
  simp only [List.length_replicate]
  by_cases hi : e = i
  · subst hi
    rw [if_pos rfl, if_pos he, if_pos (by omega), List.getElem?_replicate_of_lt (by omega)]
  · rw [if_neg hi]
    by_cases h1 : s ≤ i ∧ i < s + (e - s)
    · rw [if_pos h1, if_pos (by omega), List.getElem?_replicate_of_lt (by omega), List.getElem?_replicate_of_lt (by omega)]
    · rw [if_neg h1, if_neg (by omega)]

theorem materializeAttrs_same (r : ScreenBufferRow) : SameGlyphs r r.materializeAttrs := by
  unfold materializeAttrs; split <;> exact ⟨rfl, rfl, rfl, rfl, rfl⟩

theorem materializeAttrs_uniform (r : ScreenBufferRow) : r.materializeAttrs.attrsUniform = false := by
  unfold materializeAttrs; split <;> simp_all

theorem materializeAttrs_attrs (r : ScreenBufferRow) : r.materializeAttrs.attrs = r.attrList := by
  unfold materializeAttrs attrList; split
  · exact fillRange_all _ _
  · rfl

theorem length_attrList (r : ScreenBufferRow) : r.attrList.length = r.attrs.length := by
  unfold attrList; split <;> simp

theorem writeAttrRange_same (r : ScreenBufferRow) (s e : Nat) (a : TextAttribute) :
    SameGlyphs r (r.writeAttrRange s e a) := by
  have := materializeAttrs_same r
  unfold writeAttrRange
  split
  · exact ⟨rfl, rfl, rfl, rfl, rfl⟩
  · split
    · exact .refl r
    · dsimp only
      split
      · exact this
      · exact ⟨this.filled, this.single, this.fillChar, this.text, this.columns⟩

/-- `fill_attrs` after it has materialised the row, and `write_attr_range`
write the same attributes. -/
theorem attrList_writeAttrRange {s e : Nat} (a : TextAttribute) (hw : r.width = r.attrs.length) (hs : s ≤ e)
    (he : e ≤ r.width) : (r.writeAttrRange s e a).attrList = fillRange r.attrList s e a ∧
      (r.writeAttrRange s e a).attrs.length = r.attrs.length := by
  have hl := length_attrList r
  unfold writeAttrRange
  split
  · rename_i h
    obtain ⟨rfl, h⟩ := h
    obtain rfl : e = r.attrList.length := by omega
    rw [fillRange_all, hl]
    exact ⟨rfl, rfl⟩
  · split
    · rename_i h
      rw [attrList, if_pos h.1, ← h.2, fillRange_replicate _ _ _ _ hs (by omega)]
      exact ⟨rfl, rfl⟩
    · have hu := materializeAttrs_uniform r
      have ha := materializeAttrs_attrs r
      dsimp only
      split
      · rename_i h
        rw [ha, hl] at h
        obtain rfl : s = e := by omega
        rw [fillRange_empty, attrList, hu, ha]
        exact ⟨rfl, hl⟩
      · have hlen := length_fillRange (l := r.attrList) a (show e ≤ r.attrList.length by omega) hs
        rw [ha, Nat.min_eq_left (by omega)]
        refine ⟨?_, by rw [hlen, hl]⟩
        conv_lhs => rw [attrList]
        simp [hu]

theorem Shows.writeAttrRange {s e : Nat} (h : Shows r w gs as) (hf : r.filled = false) (a : TextAttribute)
    (hs : s ≤ e) (he : e ≤ w) : Shows (r.writeAttrRange s e a) w gs (fillRange as s e a) := by
  have hw := h.width_eq
  have hsame := writeAttrRange_same r s e a
  obtain ⟨h1, h2⟩ := attrList_writeAttrRange (r := r) a (by rw [hw, h.attrs_length]) hs (by omega)
  exact ⟨h.width_le, by rw [hsame.columns, h.columns_length], by rw [h2, h.attrs_length], hsame.showsGlyphs h.glyphs,
    by rw [h1, h.attrs], by rw [hsame.filled, hf]; simp⟩

/-- A row with the attributes of `x` after a range of them has been written. -/
theorem Shows.of_writeAttrRange {x y : ScreenBufferRow} {s e : Nat} {a : TextAttribute} (hwl : w ≤ 0x7FFF)
    (hxl : x.columns.length = w + 1) (hal : x.attrs.length = w) (has : x.attrList = as) (hs : s ≤ e) (he : e ≤ w)
    (hyl : y.columns.length = w + 1) (ha : y.attrs = (x.writeAttrRange s e a).attrs)
    (hu : y.attrsUniform = (x.writeAttrRange s e a).attrsUniform)
    (hua : y.uniformAttr = (x.writeAttrRange s e a).uniformAttr) (hf : y.filled = false) (hg : ShowsGlyphs y w gs) :
    Shows y w gs (fillRange as s e a) := by
  have hxw := width_of_length hxl hwl
  obtain ⟨h1, h2⟩ := attrList_writeAttrRange (r := x) a (by rw [hxw, hal]) hs (by rw [hxw]; exact he)
  refine ⟨hwl, hyl, by rw [ha, h2, hal], hg, ?_, by simp [hf]⟩
  rw [← has, ← h1, attrList, attrList, ha, hu, hua]

/-! ## Materialisation -/

theorem materializeFilled_filled (r : ScreenBufferRow) : r.materializeFilled.filled = false := by
  unfold materializeFilled; split <;> simp_all

theorem materializeFilled_of_not (h : r.filled = false) : r.materializeFilled = r := by
  simp [materializeFilled, h]

theorem Shows.materializeFilled (h : Shows r w gs as) : Shows r.materializeFilled w gs as := by
  have hw := h.width_eq
  unfold ScreenBufferRow.materializeFilled
  split
  · rename_i hf
    obtain ⟨hu, ha⟩ := h.fill hf
    have hgs : gs = List.replicate w ⟨r.fillChar, false⟩ := by
      cases h.glyphs with
      | filled _ h => exact h
      | single h => simp [h] at hf
      | explicit h => simp [h.notFilled] at hf
    refine ⟨h.width_le, h.columns_length, h.attrs_length, .single rfl rfl (by simp [hw]) (by simp [hgs, hw]), ?_, by simp⟩
    have := h.attrs
    simpa [attrList, hu, ha] using this
  · exact h

theorem Shows.materializeColumns (h : Shows r w gs as) (hf : r.filled = false) :
    Shows r.materializeColumnsFromSingleWidthLayout w gs as ∧
      Explicit r.materializeColumnsFromSingleWidthLayout w gs := by
  unfold materializeColumnsFromSingleWidthLayout
  split
  · rename_i hs
    have hg : r.text.length = w ∧ gs = r.text.map (Glyph.mk · false) := by
      cases h.glyphs with
      | filled h => simp [h] at hf
      | single _ _ ht h => exact ⟨ht, h⟩
      | explicit h => simp [h.notSingle] at hs
    have hcol : iota r.columns 0 r.columns.length 0 = table 0x8000 0 gs ++ [gs.length] := by
      have hle := h.width_le
      rw [h.columns_length, hg.2, table_map_single, hg.1, List.length_map, hg.1, iota,
        range'_map_u16 (by omega), setRange]
      simp only [List.take_zero, List.nil_append, List.length_range', Nat.sub_zero]
      rw [List.drop_eq_nil_of_le (by rw [h.columns_length]; omega), List.append_nil, List.range'_concat]
      simp
    have he : Explicit { r with columns := iota r.columns 0 r.columns.length 0, singleWidthLayout := false } w gs :=
      ⟨hf, rfl, h.width_le, h.cols_eq, by simp [hg.2, Function.comp_def], hcol⟩
    refine ⟨⟨h.width_le, ?_, h.attrs_length, .explicit he, h.attrs, by simp [hf]⟩, he⟩
    simp only [hcol, List.length_append, length_table, h.cols_eq, List.length_singleton]
  · rename_i hs
    exact ⟨h, h.explicit (by simp_all)⟩

theorem Shows.materializeAttrs (h : Shows r w gs as) (hf : r.filled = false) : Shows r.materializeAttrs w gs as := by
  have hs := materializeAttrs_same r
  refine ⟨h.width_le, by rw [hs.columns, h.columns_length], ?_, hs.showsGlyphs h.glyphs, ?_, by simp [hs.filled, hf]⟩
  · rw [materializeAttrs_attrs, length_attrList, h.attrs_length]
  · rw [attrList, materializeAttrs_uniform, materializeAttrs_attrs, h.attrs]; simp

/-- `set_attr` changes the attribute of one column. -/
theorem Shows.setAttr (h : Shows r w gs as) (c : Nat) (a : TextAttribute) :
    Shows (r.setAttr c a) w gs (as.set c a) ∧ (r.setAttr c a).filled = false := by
  have h1 := h.materializeFilled
  have hf := materializeFilled_filled r
  have h2 := h1.materializeAttrs hf
  have hf2 : r.materializeFilled.materializeAttrs.filled = false := by rw [(materializeAttrs_same _).filled, hf]
  have hu := materializeAttrs_uniform r.materializeFilled
  have ha : r.materializeFilled.materializeAttrs.attrs = as := by
    have := h2.attrs
    rwa [attrList, hu, if_neg (by simp)] at this
  simp only [ScreenBufferRow.setAttr]
  split
  · refine ⟨⟨h2.width_le, h2.columns_length, by simpa using h2.attrs_length, ?_, ?_, by simp [hf2]⟩, hf2⟩
    · have : SameGlyphs r.materializeFilled.materializeAttrs
          { r.materializeFilled.materializeAttrs with attrs := r.materializeFilled.materializeAttrs.attrs.set c a } :=
        ⟨rfl, rfl, rfl, rfl, rfl⟩
      exact this.showsGlyphs h2.glyphs
    · simp [attrList, hu, ha]
  · rename_i hc
    rw [ha] at hc
    rw [List.set_eq_of_length_le (by omega)]
    exact ⟨h2, hf2⟩

/-- Setting the attributes of a range of columns one by one. -/
theorem Shows.setAttrs (h : Shows r w gs as) (hf : r.filled = false) (s : Nat) (a : TextAttribute) : ∀ {n : Nat}, s + n ≤ w →
    Shows ((List.range' s n).foldl (fun r c => r.setAttr c a) r) w gs (fillRange as s (s + n) a) ∧
      ((List.range' s n).foldl (fun r c => r.setAttr c a) r).filled = false
  | 0, _ => by rw [Nat.add_zero, fillRange_empty]; exact ⟨h, hf⟩
  | n + 1, hn => by
    have ih := Shows.setAttrs h hf s a (n := n) (by omega)
    rw [List.range'_concat, List.foldl_concat, Nat.one_mul, ← Nat.add_assoc,
      ← fillRange_succ a (by omega) (by rw [h.length_attrs]; omega)]
    exact ih.1.setAttr (s + n) a

theorem Shows.fillAttrs (h : Shows r w gs as) (s e : Nat) (a : TextAttribute) :
    Shows (r.fillAttrs s e a) w gs (if s ≤ min e w then fillRange as s (min e w) a else as) := by
  have h1 := h.materializeFilled
  have hf := materializeFilled_filled r
  have hw := h1.width_eq
  have hl := h1.length_attrs
  simp only [ScreenBufferRow.fillAttrs, hw]
  split
  · rename_i hse
    obtain ⟨rfl, hse⟩ := hse
    have hfill : fillRange as 0 w a = List.replicate as.length a := by rw [← hl, fillRange_all]
    rw [Nat.min_eq_right hse, if_pos (Nat.zero_le _), hfill]
    have hs : SameGlyphs r.materializeFilled { r.materializeFilled with attrsUniform := true, uniformAttr := a } :=
      ⟨rfl, rfl, rfl, rfl, rfl⟩
    exact ⟨h1.width_le, h1.columns_length, h1.attrs_length, hs.showsGlyphs h1.glyphs,
      by simp [attrList, h1.attrs_length, hl], by simp [hf]⟩
  · have h2 := h1.materializeAttrs hf
    have hsame := materializeAttrs_same r.materializeFilled
    have hu := materializeAttrs_uniform r.materializeFilled
    have ha : r.materializeFilled.materializeAttrs.attrs = as := by
      rw [materializeAttrs_attrs, h1.attrs]
    rw [ha, hl]
    split
    · rename_i hws
      by_cases hs : s ≤ min e w
      · obtain rfl : s = min e w := by omega
        rw [if_pos hs, fillRange_empty]; exact h2
      · rw [if_neg hs]; exact h2
    · rename_i hws
      have hs : SameGlyphs r.materializeFilled.materializeAttrs
          { r.materializeFilled.materializeAttrs with attrs := fillRange as s (min e w) a } := ⟨rfl, rfl, rfl, rfl, rfl⟩
      by_cases hle : s ≤ min e w
      · rw [if_pos hle]
        have hlen := length_fillRange (l := as) a (show min e w ≤ as.length by omega) hle
        refine ⟨h2.width_le, h2.columns_length, by simp only [hlen, hl], hs.showsGlyphs h2.glyphs, ?_,
          by simp [hsame.filled, hf]⟩
        simp [attrList, hu]
      · rw [if_neg hle]
        have : fillRange as s (min e w) a = as := by
          simp [fillRange, setRange, show min e w - s = 0 by omega]
        rw [this] at hs ⊢
        refine ⟨h2.width_le, h2.columns_length, hl, hs.showsGlyphs h2.glyphs, ?_, by simp [hsame.filled, hf]⟩
        simp [attrList, hu]

theorem Shows.resetFill (r : ScreenBufferRow) {w : Nat} (hw : w ≤ 0x7FFF) (cp : Char32) (a : TextAttribute) :
    Shows (r.resetFill w cp a) w (List.replicate w ⟨cp, false⟩) (List.replicate w a) := by
  refine ⟨hw, ?_, ?_, .filled rfl rfl, ?_, fun _ => ⟨rfl, rfl⟩⟩ <;> simp [ScreenBufferRow.resetFill, attrList]

end Corehost.ScreenBufferRow
