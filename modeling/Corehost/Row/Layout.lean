import Corehost.Lib.Strip
import Corehost.Row.Model
import Mathlib.Data.Nat.Bitwise

/-!
# What a row shows

The three representations of a row, and what the reading functions return in
each of them:

* `Shows r w gs as`: the row `r` of `w` columns shows the strip of glyphs `gs`
  with the attributes `as`, whichever representation it is in;
* `Explicit r w gs`: the representation with an offset table;
* `colOffset_boundary`, `isTrailing_inside`, …: the reading functions, at each
  column of the strip;
* `Explicit.cut`: `_blank_glyph_cut_at` makes a column the start of a glyph.
-/

namespace Corehost.ScreenBufferRow

open Lib Lib.Strip

variable {r : ScreenBufferRow} {w : Nat} {gs pre post : List (Glyph Char32)}

/-! ## Entries of the offset table -/

theorem land_mask (n : Nat) : n &&& OFFSET_MASK = n % 0x8000 := Nat.and_two_pow_sub_one_eq_mod n 15

theorem land_flag_of_lt {k : Nat} (h : k < 0x8000) : k &&& TRAILING_FLAG = 0 := by
  have := Nat.and_two_pow k 15
  rw [Nat.testBit_lt_two_pow h] at this
  simpa [TRAILING_FLAG] using this

theorem land_flag_add {k : Nat} (h : k < 0x8000) : (k + 0x8000) &&& TRAILING_FLAG = 0x8000 := by
  have := Nat.and_two_pow (k + 0x8000) 15
  rw [show k + 0x8000 = 2 ^ 15 + k by omega, Nat.testBit_two_pow_add_eq, Nat.testBit_lt_two_pow h] at this
  rw [show k + 0x8000 = 2 ^ 15 + k by omega]
  simpa [TRAILING_FLAG] using this

theorem lor_flag {k : Nat} (h : k < 0x8000) : k ||| TRAILING_FLAG = k + 0x8000 := by
  have := Nat.two_pow_add_eq_or_of_lt (i := 15) h 1
  rw [Nat.or_comm, TRAILING_FLAG, show k + 0x8000 = 2 ^ 15 * 1 + k by omega, this]

theorem shiftEntry_of_lt {k : Nat} {d : Int} (h : k < 0x8000) (h0 : 0 ≤ (k : Int) + d) (h1 : (k : Int) + d < 0x8000) :
    shiftEntry d k = ((k : Int) + d).toNat := by
  rw [shiftEntry, land_flag_of_lt h, land_mask, Nat.mod_eq_of_lt h, Nat.zero_or, Int.emod_eq_of_lt h0 (by omega)]

theorem shiftEntry_add_flag {k : Nat} {d : Int} (h : k < 0x8000) (h0 : 0 ≤ (k : Int) + d)
    (h1 : (k : Int) + d < 0x8000) : shiftEntry d (k + 0x8000) = ((k : Int) + d).toNat + 0x8000 := by
  rw [shiftEntry, land_flag_add h, land_mask, Nat.add_mod_right, Nat.mod_eq_of_lt h,
    Int.emod_eq_of_lt h0 (by omega), Nat.or_comm]
  exact lor_flag (by omega)

/-- Shifting the table of a strip, and the index past its end, is moving the
strip in the text. -/
theorem map_shiftEntry_table {o o' : Nat} {d : Int} (hd : (o : Int) + d = o') : ∀ {gs : List (Glyph Char32)},
    o + gs.length < 0x8000 → o' + gs.length < 0x8000 →
    (table 0x8000 o gs ++ [o + gs.length]).map (shiftEntry d) = table 0x8000 o' gs ++ [o' + gs.length] := by
  intro gs
  induction gs generalizing o o' with
  | nil =>
    intro h h'
    simp only [List.length_nil, Nat.add_zero] at h h'
    simp only [table_nil, List.length_nil, Nat.add_zero, List.nil_append, List.map_cons, List.map_nil]
    rw [shiftEntry_of_lt h (by omega) (by omega), hd, Int.toNat_natCast]
  | cons g gs ih =>
    intro h h'
    simp only [List.length_cons] at h h'
    have := @ih (o + 1) (o' + 1) (by omega) (by omega) (by omega)
    rw [show o + 1 + gs.length = o + (gs.length + 1) by omega,
      show o' + 1 + gs.length = o' + (gs.length + 1) by omega] at this
    simp only [table, List.append_assoc, List.map_append, List.length_cons] at this ⊢
    rw [this]
    congr 1
    split
    · rw [List.map_cons, List.map_cons, shiftEntry_of_lt (by omega) (by omega) (by omega),
        shiftEntry_add_flag (by omega) (by omega) (by omega), hd]
      simp
    · rw [List.map_cons, shiftEntry_of_lt (by omega) (by omega) (by omega), hd]
      simp

/-! ## Representations -/

/-- The representation with an offset table. -/
structure Explicit (r : ScreenBufferRow) (w : Nat) (gs : List (Glyph Char32)) : Prop where
  notFilled : r.filled = false
  notSingle : r.singleWidthLayout = false
  width_le : w ≤ 0x7FFF
  cols_eq : cols gs = w
  text_eq : r.text = gs.map Glyph.char
  columns_eq : r.columns = table 0x8000 0 gs ++ [gs.length]

/-- The attributes of a row, one for each column. -/
def attrList (r : ScreenBufferRow) : List TextAttribute :=
  if r.attrsUniform then List.replicate r.attrs.length r.uniformAttr else r.attrs

/-- The row shows the glyphs `gs`: as a filled row, as a single-width row or
through its offset table. -/
inductive ShowsGlyphs (r : ScreenBufferRow) (w : Nat) (gs : List (Glyph Char32)) : Prop
  | filled (hf : r.filled = true) (h : gs = List.replicate w ⟨r.fillChar, false⟩)
  | single (hf : r.filled = false) (hs : r.singleWidthLayout = true) (ht : r.text.length = w)
      (h : gs = r.text.map (Glyph.mk · false))
  | explicit (h : Explicit r w gs)

/-- The row of `w` columns shows the glyphs `gs` with the attributes `as`. -/
structure Shows (r : ScreenBufferRow) (w : Nat) (gs : List (Glyph Char32)) (as : List TextAttribute) : Prop where
  width_le : w ≤ 0x7FFF
  columns_length : r.columns.length = w + 1
  attrs_length : r.attrs.length = w
  glyphs : ShowsGlyphs r w gs
  attrs : r.attrList = as
  fill : r.filled = true → r.attrsUniform = true ∧ r.uniformAttr = r.fillAttr

theorem width_of_length (h : r.columns.length = w + 1) (hw : w ≤ 0x7FFF) : r.width = w := by
  have : r.columns.isEmpty = false := by cases hc : r.columns <;> simp_all
  rw [width, this, h]
  simpa using u16_of_lt (n := w) (by omega)

theorem Explicit.columns_length (h : Explicit r w gs) : r.columns.length = w + 1 := by
  rw [h.columns_eq, List.length_append, length_table, h.cols_eq]; rfl

theorem Explicit.width_eq (h : Explicit r w gs) : r.width = w := width_of_length h.columns_length h.width_le

theorem Explicit.length_le (h : Explicit r w gs) : gs.length ≤ w := h.cols_eq ▸ length_le_cols gs

theorem Shows.width_eq {as} (h : Shows r w gs as) : r.width = w := width_of_length h.columns_length h.width_le

theorem ShowsGlyphs.cols_eq (h : ShowsGlyphs r w gs) : cols gs = w := by
  cases h with
  | filled _ h => rw [h]; simp
  | single _ _ ht h => rw [h]; simpa using ht
  | explicit h => exact h.cols_eq

theorem Shows.cols_eq {as} (h : Shows r w gs as) : cols gs = w := h.glyphs.cols_eq

theorem Shows.length_attrs {as} (h : Shows r w gs as) : as.length = w := by
  rw [← h.attrs, attrList]; split
  · simpa using h.attrs_length
  · exact h.attrs_length

/-! ## Reading an offset table -/

theorem Explicit.getD_boundary (h : Explicit r w (pre ++ post)) : r.columns.getD (cols pre) 0 = pre.length := by
  rw [List.getD_eq_getElem?_getD, h.columns_eq]
  cases post with
  | nil =>
    rw [List.append_nil, List.getElem?_append_right (by simp), length_table, Nat.sub_self]; rfl
  | cons g post =>
    have hg := g.cols_pos
    rw [List.getElem?_append_left (by simp; omega), getElem?_table_lead]
    simp

theorem Explicit.getD_inside {a : Char32} (h : Explicit r w (pre ++ ⟨a, true⟩ :: post)) :
    r.columns.getD (cols pre + 1) 0 = pre.length + 0x8000 := by
  rw [List.getD_eq_getElem?_getD, h.columns_eq, List.getElem?_append_left (by simp; omega),
    getElem?_table_trail]
  simp

theorem Explicit.cols_pre_le (h : Explicit r w (pre ++ post)) : cols pre ≤ w := by
  have := h.cols_eq; rw [cols_append] at this; omega

theorem Explicit.length_pre_lt (h : Explicit r w (pre ++ post)) : pre.length < 0x8000 := by
  have := h.cols_pre_le; have := length_le_cols pre; have := h.width_le; omega

theorem Explicit.colOffset_boundary (h : Explicit r w (pre ++ post)) : r.colOffset (cols pre) = pre.length := by
  have hle := h.cols_pre_le
  simp only [colOffset, h.notFilled, h.notSingle, h.columns_length, Bool.false_eq_true, if_false]
  rw [if_pos (by omega), h.getD_boundary, land_mask, Nat.mod_eq_of_lt h.length_pre_lt]

theorem Explicit.isTrailing_boundary (h : Explicit r w (pre ++ post)) : r.isTrailing (cols pre) = false := by
  simp only [isTrailing, h.notFilled, h.notSingle, Bool.or_self, Bool.false_eq_true, if_false]
  rw [h.getD_boundary, land_flag_of_lt h.length_pre_lt]
  simp

theorem Explicit.colOffset_inside {a : Char32} (h : Explicit r w (pre ++ ⟨a, true⟩ :: post)) :
    r.colOffset (cols pre + 1) = pre.length := by
  have hle := h.cols_eq
  simp only [cols_append, cols_cons, Glyph.cols_double] at hle
  simp only [colOffset, h.notFilled, h.notSingle, h.columns_length, Bool.false_eq_true, if_false]
  rw [if_pos (by omega), h.getD_inside, land_mask, Nat.add_mod_right, Nat.mod_eq_of_lt h.length_pre_lt]

theorem Explicit.isTrailing_inside {a : Char32} (h : Explicit r w (pre ++ ⟨a, true⟩ :: post)) :
    r.isTrailing (cols pre + 1) = true := by
  have hle := h.cols_eq
  simp only [cols_append, cols_cons, Glyph.cols_double] at hle
  simp only [isTrailing, h.notFilled, h.notSingle, h.columns_length, Bool.or_self, Bool.false_eq_true, if_false]
  rw [h.getD_inside, land_flag_add h.length_pre_lt]
  simp; omega

/-- From the column after the first one of a glyph, `skipTrailing` goes to the next glyph. -/
theorem Explicit.skipTrailing_lead {g : Glyph Char32} (h : Explicit r w (pre ++ g :: post)) {n : Nat} (hn : 0 < n) :
    r.skipTrailing (cols pre + 1) n = cols pre + g.cols := by
  obtain ⟨n, rfl⟩ : ∃ m, n = m + 1 := ⟨n - 1, by omega⟩
  have hnext : r.isTrailing (cols pre + g.cols) = false := by
    have := (show Explicit r w ((pre ++ [g]) ++ post) by simpa using h).isTrailing_boundary
    simpa using this
  have hle := h.cols_eq
  obtain ⟨a, wide⟩ := g
  cases wide
  · simp only [Glyph.cols_single] at hnext ⊢
    simp [skipTrailing, hnext]
  · simp only [Glyph.cols_double, cols_append, cols_cons] at hnext hle ⊢
    have hw : cols pre + 1 < r.width := by rw [h.width_eq]; omega
    rw [skipTrailing, if_pos (by simp [hw, h.isTrailing_inside])]
    cases n with
    | zero => rfl
    | succ n => simp [skipTrailing, show cols pre + 1 + 1 = cols pre + 2 from rfl, hnext]

theorem Explicit.skipTrailing_boundary (h : Explicit r w (pre ++ post)) (n : Nat) :
    r.skipTrailing (cols pre) n = cols pre := by
  cases n with
  | zero => rfl
  | succ n => simp [skipTrailing, h.isTrailing_boundary]

/-! ## Reading any row -/

theorem ShowsGlyphs.wide_of_flags (h : ShowsGlyphs r w gs) (hf : (r.filled || r.singleWidthLayout) = true) :
    ∀ g ∈ gs, g.wide = false := by
  cases h with
  | filled _ h => subst h; intro g hg; rw [(List.mem_replicate.mp hg).2]
  | single _ _ _ h => subst h; intro g hg; obtain ⟨a, -, rfl⟩ := List.mem_map.mp hg; rfl
  | explicit h => simp [h.notFilled, h.notSingle] at hf

theorem cols_eq_length : ∀ {gs : List (Glyph Char32)}, (∀ g ∈ gs, g.wide = false) → cols gs = gs.length
  | [], _ => rfl
  | g :: gs, h => by
    rw [cols_cons, cols_eq_length fun g' hg => h g' (List.mem_cons_of_mem _ hg), Glyph.cols,
      h g List.mem_cons_self, List.length_cons]
    simp [Nat.add_comm]

variable {as : List TextAttribute}

theorem Shows.explicit (h : Shows r w gs as) (hf : (r.filled || r.singleWidthLayout) = false) : Explicit r w gs := by
  obtain ⟨_, _, _, hg, _, _⟩ := h
  cases hg with
  | filled h => simp [h] at hf
  | single _ h => simp [h] at hf
  | explicit h => exact h

theorem Shows.colOffset_boundary (h : Shows r w (pre ++ post) as) : r.colOffset (cols pre) = pre.length := by
  cases hf : r.filled || r.singleWidthLayout
  · exact (h.explicit hf).colOffset_boundary
  · have hw := h.glyphs.wide_of_flags hf
    have hc := h.cols_eq
    rw [cols_append] at hc
    rw [← cols_eq_length fun g hg => hw g (List.mem_append_left _ hg)]
    simp only [colOffset, h.width_eq, show cols pre ≤ w by omega, if_true]
    rcases (by simpa using hf : r.filled = true ∨ r.singleWidthLayout = true) with h1 | h1 <;> simp [h1]

theorem Shows.isTrailing_boundary (h : Shows r w (pre ++ post) as) : r.isTrailing (cols pre) = false := by
  cases hf : r.filled || r.singleWidthLayout
  · exact (h.explicit hf).isTrailing_boundary
  · simp [isTrailing, hf]

theorem Shows.explicit_of_wide {a : Char32} (h : Shows r w (pre ++ ⟨a, true⟩ :: post) as) :
    Explicit r w (pre ++ ⟨a, true⟩ :: post) := by
  cases hf : r.filled || r.singleWidthLayout
  · exact h.explicit hf
  · have := h.glyphs.wide_of_flags hf ⟨a, true⟩ (by simp)
    simp at this

theorem Explicit.glyphAt_eq {g : Glyph Char32} {c : Nat} (h : Explicit r w (pre ++ g :: post)) (hc : c < w)
    (ho : r.colOffset c = pre.length) (hs : r.skipTrailing (c + 1) (w - c) = cols pre + g.cols) :
    r.glyphAt c = [g.char] := by
  have hnext : r.colOffset (cols pre + g.cols) = pre.length + 1 := by
    have := (show Explicit r w ((pre ++ [g]) ++ post) by simpa using h).colOffset_boundary
    simpa using this
  have hl : pre.length + 1 ≤ r.text.length := by rw [h.text_eq]; simp
  simp only [glyphAt, h.width_eq, h.notFilled, h.notSingle, Bool.false_eq_true, if_false, ho, hs, hnext]
  rw [if_neg (by omega), if_neg (show ¬ r.text.length < pre.length + 1 by omega), if_neg (by omega), h.text_eq,
    Nat.add_sub_cancel_left]
  simp

/-- The character shown at the first column of a glyph. -/
theorem Shows.glyphAt_lead {g : Glyph Char32} (h : Shows r w (pre ++ g :: post) as) :
    r.glyphAt (cols pre) = [g.char] := by
  have hc := h.cols_eq
  have hg := g.cols_pos
  simp only [cols_append, cols_cons] at hc
  cases hf : r.filled || r.singleWidthLayout
  · have he := h.explicit hf
    exact he.glyphAt_eq (by omega) he.colOffset_boundary (he.skipTrailing_lead (by omega))
  · have hw := h.glyphs.wide_of_flags hf
    have hl := cols_eq_length fun g hg => hw g (List.mem_append_left _ hg)
    simp only [glyphAt, h.width_eq]
    rw [if_neg (by omega)]
    cases h.glyphs with
    | filled h1 h2 =>
      have := congrArg (·[pre.length]?) h2
      simp only [List.getElem?_append_right (Nat.le_refl _), Nat.sub_self] at this
      rw [List.getElem?_replicate_of_lt (by omega)] at this
      simp only [List.getElem?_cons_zero, Option.some.injEq] at this
      simp [h1, this]
    | single h1 h2 h3 h4 =>
      have ht : r.text = pre.map Glyph.char ++ g.char :: post.map Glyph.char := by
        have := congrArg (List.map Glyph.char) h4
        simpa [Function.comp_def] using this.symm
      simp only [h1, h2, Bool.false_eq_true, if_false, if_true]
      rw [if_pos (by omega), ht, hl]
      simp
    | explicit h => simp [h.notFilled, h.notSingle] at hf

/-- The second column of a wide glyph shows its character too. -/
theorem Shows.glyphAt_trail {a : Char32} (h : Shows r w (pre ++ ⟨a, true⟩ :: post) as) :
    r.glyphAt (cols pre + 1) = [a] := by
  have he := h.explicit_of_wide
  have hc := h.cols_eq
  simp only [cols_append, cols_cons, Glyph.cols_double] at hc
  refine he.glyphAt_eq (by omega) he.colOffset_inside ?_
  have := (show Explicit r w ((pre ++ [⟨a, true⟩]) ++ post) by simpa using he).skipTrailing_boundary (w - (cols pre + 1))
  simpa [Nat.add_assoc] using this

theorem Shows.glyphWidth_lead {g : Glyph Char32} (h : Shows r w (pre ++ g :: post) as) :
    r.glyphWidth (cols pre) = g.cols := by
  have hc := h.cols_eq
  have hg := g.cols_pos
  simp only [cols_append, cols_cons] at hc
  simp only [glyphWidth, h.width_eq]
  rw [if_neg (by omega)]
  cases hf : r.filled || r.singleWidthLayout
  · have he := h.explicit hf
    rw [he.isTrailing_boundary, he.skipTrailing_lead (by omega)]
    simp
  · have := h.glyphs.wide_of_flags hf g (by simp)
    simp [Glyph.cols, this]

theorem Shows.glyphWidth_trail {a : Char32} (h : Shows r w (pre ++ ⟨a, true⟩ :: post) as) :
    r.glyphWidth (cols pre + 1) = 0 := by
  have he := h.explicit_of_wide
  simp [glyphWidth, he.notFilled, he.notSingle, he.isTrailing_inside]

theorem Shows.isTrailing_trail {a : Char32} (h : Shows r w (pre ++ ⟨a, true⟩ :: post) as) :
    r.isTrailing (cols pre + 1) = true := h.explicit_of_wide.isTrailing_inside

theorem Shows.attrAt_eq (h : Shows r w gs as) {c : Nat} (hc : c < w) : r.attrAt c = as.getD c {} := by
  rw [← h.attrs, attrAt, attrList, h.width_eq, h.attrs_length]
  cases r.attrsUniform
  · simp [hc]
  · simp [hc, List.getD_eq_getElem?_getD]

end Corehost.ScreenBufferRow
