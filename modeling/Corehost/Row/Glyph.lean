import Corehost.Row.Attrs

/-!
# Writing one glyph

* `Explicit.cut`: `_blank_glyph_cut_at` makes a column the start of a glyph;
* `Explicit.splice`: the text and the offset table after a range of whole
  glyphs has been replaced;
* `Shows.writeGlyph`: `write_glyph` overwrites the strip.
-/

namespace Corehost.ScreenBufferRow

open Lib Lib.Strip

variable {r r' : ScreenBufferRow} {w : Nat} {gs pre mid post : List (Glyph Char32)} {as : List TextAttribute}

/-- What is left of a wide glyph that is cut. -/
abbrev space : Glyph Char32 := ⟨0x20, false⟩

/-- The strip after `new` has been written at column `c`. Cut glyphs become spaces. -/
abbrev put (gs : List (Glyph Char32)) (c : Nat) (new : List (Glyph Char32)) : List (Glyph Char32) :=
  overwrite 0x20 gs c new

/-! ## Splicing text and offsets -/

theorem setRange_split {α : Type*} {xs ys zs vs : List α} {n : Nat} (hn : n = xs.length) (h : vs.length = ys.length) :
    setRange (xs ++ ys ++ zs) n vs = xs ++ vs ++ zs := hn ▸ setRange_append h

theorem replace_split {α : Type*} {xs ys zs : List α} {n k : Nat} (hn : n = xs.length) (hk : k = ys.length)
    (vs : List α) : replace (xs ++ ys ++ zs) n k vs = xs ++ vs ++ zs := by
  subst hn hk; exact replace_append xs ys zs vs

theorem table_split (pre mid post : List (Glyph Char32)) :
    table 0x8000 0 (pre ++ mid ++ post) ++ [(pre ++ mid ++ post).length] =
      table 0x8000 0 pre ++ table 0x8000 pre.length mid ++
        (table 0x8000 (pre ++ mid).length post ++ [(pre ++ mid).length + post.length]) := by
  simp [table_append, Nat.add_assoc]

/-- `_shift_columns_from` after the glyphs `mid` have been replaced by `new`
moves the entries after them. -/
theorem shiftColumns_split (xs : List Nat) (post : List (Glyph Char32)) {n o : Nat} (o' : Nat) {d : Int}
    (hn : n = xs.length) (hd : (o : Int) + d = o')
    (h : o + post.length < 0x8000) (h' : o' + post.length < 0x8000)
    (hc : r.columns = xs ++ (table 0x8000 o post ++ [o + post.length])) :
    (r.shiftColumnsFrom n d).columns = xs ++ (table 0x8000 o' post ++ [o' + post.length]) := by
  subst hn
  simp only [shiftColumnsFrom, hc, List.take_left, List.drop_left]
  rw [map_shiftEntry_table hd h h']

/-! ## Cut glyphs -/

theorem leadOf_of_not_trailing {c : Nat} (h : r.isTrailing c = false) : r.leadOf c = c := by
  cases c with
  | zero => rfl
  | succ c => simp [leadOf, h]

theorem blankGlyphCutAt_boundary (h : Explicit r w (pre ++ post)) : r.blankGlyphCutAt (cols pre) = r := by
  simp [blankGlyphCutAt, h.isTrailing_boundary]

theorem blankGlyphCutAt_inside {a : Char32} (h : Explicit r w (pre ++ ⟨a, true⟩ :: post)) :
    r.blankGlyphCutAt (cols pre + 1) =
      { r with
        text := (pre ++ [space, space] ++ post).map Glyph.char
        columns := table 0x8000 0 (pre ++ [space, space] ++ post) ++
          [(pre ++ [space, space] ++ post).length] } := by
  have h' : Explicit r w ((pre ++ [⟨a, true⟩]) ++ post) := by simpa using h
  have hle := h.cols_eq
  have hlen := h.length_le
  have hw := h.width_le
  have hpre := length_le_cols pre
  have hpost := length_le_cols post
  simp only [cols_append, cols_cons, Glyph.cols_double, List.length_append, List.length_cons] at hle hlen
  have hlead : r.leadOf (cols pre + 1) = cols pre := by
    rw [leadOf, if_pos h.isTrailing_inside, leadOf_of_not_trailing h.isTrailing_boundary]
  have hstop : r.skipTrailing (cols pre + 2) (r.width - (cols pre + 1)) = cols pre + 2 := by
    simpa using h'.skipTrailing_boundary (r.width - (cols pre + 1))
  have hstart := h.colOffset_boundary
  have hoff : r.colOffset (cols pre + 2) = pre.length + 1 := by simpa using h'.colOffset_boundary
  unfold blankGlyphCutAt
  rw [if_neg (by rw [h.width_eq, h.isTrailing_inside]; simp; omega)]
  simp only [hlead, show cols pre + 1 + 1 = cols pre + 2 from rfl, hstop, hstart, hoff, Nat.add_sub_cancel_left]
  have h2 : u16 2 = 2 := rfl
  have hsz : sizeT (((pre.length + 1 : Nat) : Int) - (pre.length : Int)) = 1 := by
    rw [sizeT_sub (by omega) (by omega)]; omega
  have hd : i16 (((2 : Nat) : Int) - (((pre.length + 1 : Nat) : Int) - (pre.length : Int))) = 1 := by
    rw [show ((2 : Nat) : Int) - (((pre.length + 1 : Nat) : Int) - (pre.length : Int)) = 1 by omega]; rfl
  rw [h2, hsz, hd]
  have htext : replace r.text pre.length 1 (List.replicate 2 0x20) =
      (pre ++ [space, space] ++ post).map Glyph.char := by
    rw [h.text_eq, show (pre ++ ⟨a, true⟩ :: post).map Glyph.char = pre.map Glyph.char ++ [a] ++ post.map Glyph.char by simp,
      replace_split (by simp) (by simp)]
    simp
  have hset : setRange r.columns (cols pre) ((List.range 2).map fun k => u16 (pre.length + k)) =
      (table 0x8000 0 pre ++ [pre.length, pre.length + 1]) ++
        (table 0x8000 (pre.length + 1) post ++ [pre.length + 1 + post.length]) := by
    rw [h.columns_eq, show pre ++ ⟨a, true⟩ :: post = pre ++ [⟨a, true⟩] ++ post by simp, table_split,
      setRange_split (by simp) (by simp [table])]
    simp [List.range_succ, u16_of_lt (show pre.length < 0x10000 by omega),
      u16_of_lt (show pre.length + 1 < 0x10000 by omega)]
  rw [htext, hset]
  have hshift := shiftColumns_split (table 0x8000 0 pre ++ [pre.length, pre.length + 1]) post (pre.length + 2) (n := cols pre + 2)
    (r := { r with
      text := (pre ++ [space, space] ++ post).map Glyph.char
      columns := (table 0x8000 0 pre ++ [pre.length, pre.length + 1]) ++
        (table 0x8000 (pre.length + 1) post ++ [pre.length + 1 + post.length]) })
    (o := pre.length + 1) (d := 1) (by simp) (by omega) (by omega) (by omega) rfl
  simp only [shiftColumnsFrom] at hshift ⊢
  rw [hshift]
  simp [table_append, table]
  omega

theorem Explicit.cut (h : Explicit r w gs) {c : Nat} (hc : c ≤ w) :
    Explicit (r.blankGlyphCutAt c) w (headTo 0x20 gs c ++ tailFrom 0x20 gs c) ∧
      (r.blankGlyphCutAt c).attrs = r.attrs ∧ (r.blankGlyphCutAt c).attrsUniform = r.attrsUniform ∧
      (r.blankGlyphCutAt c).uniformAttr = r.uniformAttr := by
  rcases boundary_or_inside (h.cols_eq ▸ hc : c ≤ cols gs) with ⟨pre, post, rfl, rfl⟩ | ⟨pre, a, post, rfl, rfl⟩
  · rw [blankGlyphCutAt_boundary h, headTo_append, tailFrom_append]
    exact ⟨h, rfl, rfl, rfl⟩
  · have hcols := h.cols_eq
    rw [blankGlyphCutAt_inside h, headTo_inside, tailFrom_inside]
    refine ⟨⟨h.notFilled, h.notSingle, h.width_le, ?_, by simp, by simp⟩, rfl, rfl, rfl⟩
    simp only [cols_append, cols_cons, cols_nil, Glyph.cols_double, Glyph.cols_single] at hcols ⊢
    omega

/-- The two cuts that precede a splice leave whole glyphs between them. -/
theorem Explicit.cut_cut (h : Explicit r w gs) {c e : Nat} (hce : c ≤ e) (he : e ≤ w) :
    ∃ mid, cols mid = e - c ∧
      Explicit ((r.blankGlyphCutAt c).blankGlyphCutAt e) w (headTo 0x20 gs c ++ mid ++ tailFrom 0x20 gs e) ∧
      ((r.blankGlyphCutAt c).blankGlyphCutAt e).attrs = r.attrs ∧
      ((r.blankGlyphCutAt c).blankGlyphCutAt e).attrsUniform = r.attrsUniform ∧
      ((r.blankGlyphCutAt c).blankGlyphCutAt e).uniformAttr = r.uniformAttr := by
  have hg := h.cols_eq
  obtain ⟨h1, a1, a2, a3⟩ := h.cut (show c ≤ w by omega)
  obtain ⟨h2, b1, b2, b3⟩ := h1.cut he
  have hhead : cols (headTo 0x20 gs c) = c := cols_headTo _ (by omega)
  have htail := cols_tailFrom (0x20 : Char32) (show c ≤ cols gs by omega)
  obtain ⟨k, rfl⟩ : ∃ k, e = c + k := ⟨e - c, by omega⟩
  refine ⟨headTo 0x20 (tailFrom 0x20 gs c) k, ?_, ?_, by rw [b1, a1], by rw [b2, a2], by rw [b3, a3]⟩
  · rw [cols_headTo _ (by omega)]; omega
  · have hh := headTo_append_add (0x20 : Char32) (headTo 0x20 gs c) (tailFrom 0x20 gs c) k
    have ht := tailFrom_append_add (0x20 : Char32) (headTo 0x20 gs c) (tailFrom 0x20 gs c) k
    rw [hhead] at hh ht
    rwa [hh, ht, tailFrom_tailFrom] at h2

/-! ## Splices -/

/-- A row whose glyphs `mid` have been replaced by `new` in text and offsets. -/
theorem Explicit.splice {new : List (Glyph Char32)} (h : Explicit r w (pre ++ mid ++ post)) (hc : cols new = cols mid)
    (hf : r'.filled = false) (hs : r'.singleWidthLayout = false)
    (ht : r'.text = pre.map Glyph.char ++ new.map Glyph.char ++ post.map Glyph.char)
    (hcol : r'.columns = table 0x8000 0 pre ++ table 0x8000 pre.length new ++
      (table 0x8000 (pre.length + new.length) post ++ [pre.length + new.length + post.length])) :
    Explicit r' w (pre ++ new ++ post) := by
  have := h.cols_eq
  refine ⟨hf, hs, h.width_le, ?_, by simp [ht], ?_⟩
  · simp only [cols_append] at this ⊢; omega
  · rw [hcol, table_split]; simp

theorem Shows.spliceGlyph (h : Shows r w gs as) (he : Explicit r w gs) {c : Nat} (g : Glyph Char32) (hc : c + g.cols ≤ w)
    (a : TextAttribute) :
    Shows (r.spliceGlyph c [g.char] g.cols a) w (put gs c [g]) (fillRange as c (c + g.cols) a) := by
  have hw := h.width_le
  have hgs := h.cols_eq
  have hg := g.cols_le
  have hg0 := g.cols_pos
  obtain ⟨mid, hmid, hx, hx1, hx2, hx3⟩ := he.cut_cut (show c ≤ c + g.cols by omega) hc
  rw [Nat.add_sub_cancel_left] at hmid
  have hhead : cols (headTo 0x20 gs c) = c := cols_headTo _ (by omega)
  have hml := length_le_cols mid
  have hmpos : 0 < mid.length := List.length_pos_iff.mpr (by rintro rfl; simp at hmid; omega)
  have hlen := hx.length_le
  simp only [List.length_append] at hlen
  generalize hhd : headTo 0x20 gs c = pre at hx hhead hlen
  generalize htl : tailFrom 0x20 gs (c + g.cols) = post at hx hlen
  have hself : ({ r with singleWidthLayout := false } : ScreenBufferRow) = r := by
    have := he.notSingle
    cases r; simp_all
  have hend : u16 (c + g.cols) = c + g.cols := u16_of_lt (by omega)
  unfold ScreenBufferRow.spliceGlyph
  simp only [hself, hend, List.length_singleton]
  generalize (r.blankGlyphCutAt c).blankGlyphCutAt (c + g.cols) = x at hx hx1 hx2 hx3
  have hstart : x.colOffset c = pre.length := by
    have := (show Explicit x w (pre ++ (mid ++ post)) by simpa using hx).colOffset_boundary
    rwa [hhead] at this
  have hstop : x.colOffset (c + g.cols) = pre.length + mid.length := by
    have := hx.colOffset_boundary
    rwa [cols_append, hhead, hmid, List.length_append] at this
  have h1 : u16 1 = 1 := rfl
  have hsz : sizeT (((pre.length + mid.length : Nat) : Int) - (pre.length : Int)) = mid.length := by
    rw [sizeT_sub (by omega) (by omega)]; omega
  have hdelta : i16 (i16 ((1 : Nat) : Int) - i16 (((pre.length + mid.length : Nat) : Int) - (pre.length : Int))) =
      1 - (mid.length : Int) := by
    rw [show ((pre.length + mid.length : Nat) : Int) - (pre.length : Int) = mid.length by omega,
      i16_of_range (n := (mid.length : Int)) (by omega) (by omega), i16_of_range (n := ((1 : Nat) : Int)) (by omega) (by omega)]
    exact i16_of_range (by omega) (by omega)
  have hentries : pre.length :: List.replicate (c + g.cols - (c + 1)) (pre.length ||| TRAILING_FLAG) =
      table 0x8000 pre.length [g] := by
    rw [lor_flag (by omega)]
    obtain ⟨ch, wide⟩ := g
    cases wide <;> simp [table]
  rw [hstart, hstop, h1, hsz, hdelta, hentries]
  have htext : replace x.text pre.length mid.length ([g.char].take 1) =
      pre.map Glyph.char ++ [g].map Glyph.char ++ post.map Glyph.char := by
    rw [hx.text_eq, List.map_append, List.map_append, replace_split (by simp) (by simp)]
    simp
  have hcols : setRange x.columns c (table 0x8000 pre.length [g]) = (table 0x8000 0 pre ++ table 0x8000 pre.length [g]) ++
      (table 0x8000 (pre ++ mid).length post ++ [(pre ++ mid).length + post.length]) := by
    rw [hx.columns_eq, table_split, setRange_split (by simp [hhead]) (by simp [hmid])]
  rw [htext, hcols]
  have hshift := shiftColumns_split (table 0x8000 0 pre ++ table 0x8000 pre.length [g]) post (pre.length + 1) (n := c + g.cols)
    (r := { x with
      text := pre.map Glyph.char ++ [g].map Glyph.char ++ post.map Glyph.char
      columns := (table 0x8000 0 pre ++ table 0x8000 pre.length [g]) ++
        (table 0x8000 (pre ++ mid).length post ++ [(pre ++ mid).length + post.length]) })
    (o := (pre ++ mid).length) (d := 1 - (mid.length : Int)) (by simp [hhead])
    (by simp only [List.length_append]; omega) (by simp only [List.length_append]; omega) (by omega) rfl
  generalize hy : ScreenBufferRow.shiftColumnsFrom _ _ _ = y at hshift ⊢
  have hy' : y.filled = x.filled ∧ y.singleWidthLayout = x.singleWidthLayout ∧
      y.text = pre.map Glyph.char ++ [g].map Glyph.char ++ post.map Glyph.char ∧ y.attrs = x.attrs ∧
      y.attrsUniform = x.attrsUniform ∧ y.uniformAttr = x.uniformAttr := by
    subst hy; exact ⟨rfl, rfl, rfl, rfl, rfl, rfl⟩
  obtain ⟨e1, e2, e3, e4, e5, e6⟩ := hy'
  have hyx : Explicit y w (pre ++ [g] ++ post) :=
    hx.splice (by simp [hmid]) (by rw [e1, hx.notFilled]) (by rw [e2, hx.notSingle]) e3 hshift
  have hyf : y.filled = false := hyx.notFilled
  have hys : Shows y w (put gs c [g]) as := by
    refine ⟨h.width_le, hyx.columns_length, by rw [e4, hx1, h.attrs_length], ?_, ?_, by simp [hyf]⟩
    · rw [put, overwrite, hhd, show cols [g] = g.cols by simp, htl]; exact .explicit hyx
    · rw [attrList, e5, e6, e4, hx1, hx2, hx3]; exact h.attrs
  rw [Nat.add_sub_cancel_left]
  exact (hys.setAttrs hyf c a hc).1

/-! ## write_glyph -/

theorem put_map_single (ts xs : List Char32) {c : Nat} (h : c + xs.length ≤ ts.length) :
    put (ts.map (Glyph.mk · false)) c (xs.map (Glyph.mk · false)) = (setRange ts c xs).map (Glyph.mk · false) := by
  have hsplit : ts = ts.take c ++ (ts.drop c).take xs.length ++ ts.drop (c + xs.length) := by
    rw [List.append_assoc, ← List.drop_drop, List.take_append_drop, List.take_append_drop]
  conv_lhs => rw [hsplit]
  have hcols : cols ((ts.take c).map (Glyph.mk · false)) = c := by
    rw [cols_map_single, List.length_take]; omega
  have := overwrite_split (0x20 : Char32) ((ts.take c).map (Glyph.mk · false))
    (((ts.drop c).take xs.length).map (Glyph.mk · false)) ((ts.drop (c + xs.length)).map (Glyph.mk · false))
    (xs.map (Glyph.mk · false))
    (by simp only [cols_map_single, List.length_take, List.length_drop]; omega)
  rw [hcols] at this
  simpa [put, setRange] using this

/-- The column is the first one of a narrow glyph. -/
theorem Explicit.narrow_at (h : Explicit r w gs) {c : Nat} (hc : c < w) (ht : r.isTrailing c = false)
    (hn : c + 1 = w ∨ r.isTrailing (c + 1) = false) : ∃ pre x post, gs = pre ++ ⟨x, false⟩ :: post ∧ c = cols pre := by
  have hcols := h.cols_eq
  obtain ⟨pre, ⟨x, wide⟩, post, rfl, hp⟩ := exists_glyph_at (hcols ▸ hc : c < cols gs)
  simp only [cols_append, cols_cons] at hcols
  cases wide
  · rcases hp with hp | ⟨hf, -⟩
    · exact ⟨pre, x, post, rfl, hp⟩
    · simp at hf
  · rw [Glyph.cols_double] at hcols
    rcases hp with rfl | ⟨-, rfl⟩
    · rcases hn with hn | hn
      · omega
      · rw [h.isTrailing_inside] at hn; simp at hn
    · rw [h.isTrailing_inside] at ht; simp at ht

theorem Explicit.setText {x y : Char32} (h : Explicit r w (pre ++ ⟨x, false⟩ :: post))
    (ht : r'.text = r.text.set pre.length y) (hf : r'.filled = r.filled) (hs : r'.singleWidthLayout = r.singleWidthLayout)
    (hc : r'.columns = r.columns) : Explicit r' w (pre ++ ⟨y, false⟩ :: post) := by
  refine ⟨hf.trans h.notFilled, hs.trans h.notSingle, h.width_le, ?_, ?_, ?_⟩
  · simpa using h.cols_eq
  · rw [ht, h.text_eq]; simp
  · rw [hc, h.columns_eq]; simp [table_append, table]

/-- `write_glyph` overwrites the strip and the attributes of its columns. -/
theorem Shows.writeGlyph (h : Shows r w gs as) {c : Nat} (g : Glyph Char32) (hc : c + g.cols ≤ w) (a : TextAttribute) :
    Shows (r.writeGlyph c [g.char] g.cols a) w (put gs c [g]) (fillRange as c (c + g.cols) a) := by
  have hg0 := g.cols_pos
  have hwl := h.width_le
  have hm := h.materializeFilled
  have hmf := materializeFilled_filled r
  unfold ScreenBufferRow.writeGlyph
  have hmin : (min (g.cols : Int) ((w : Int) - c)).toNat = g.cols := by omega
  have hu : u16 (c + 1) = c + 1 := u16_of_lt (by omega)
  rw [h.width_eq, if_neg (by omega)]
  simp only [hmin, hu, List.length_singleton, List.headD_cons, and_true, true_and]
  split
  · -- single-width layout: one character and one attribute change
    rename_i hsingle
    obtain ⟨hs, hcols⟩ := hsingle
    obtain ⟨x, wide⟩ := g
    cases wide
    · have ht : r.materializeFilled.text.length = w ∧ gs = r.materializeFilled.text.map (Glyph.mk · false) := by
        cases hm.glyphs with
        | filled h => simp [h] at hmf
        | single _ _ ht h => exact ⟨ht, h⟩
        | explicit h => simp [h.notSingle] at hs
      have hset : setRange r.materializeFilled.text c [x] = r.materializeFilled.text.set c x := by
        simp [setRange, List.set_eq_take_append_cons_drop, ht.1, show c < w by omega]
      have hput := put_map_single r.materializeFilled.text [x] (c := c) (by simp [ht.1]; omega)
      rw [hset, ← ht.2] at hput
      have hx : Shows { r.materializeFilled with text := r.materializeFilled.text.set c x } w (put gs c [⟨x, false⟩]) as :=
        ⟨hm.width_le, hm.columns_length, hm.attrs_length,
          .single hmf hs (by simpa using ht.1) (by simpa using hput), hm.attrs, hm.fill⟩
      simpa using hx.writeAttrRange hmf a (show c ≤ c + 1 by omega) (by omega)
    · simp at hcols
  · obtain ⟨hm', he⟩ := hm.materializeColumns hmf
    generalize r.materializeFilled.materializeColumnsFromSingleWidthLayout = x at hm' he ⊢
    have hxw := hm'.width_eq
    split
    · -- a narrow glyph over a narrow glyph
      rename_i hfast
      obtain ⟨hcols, ht, -, hn, -, -⟩ := hfast
      rw [hxw] at hn
      obtain ⟨pre, y, post, rfl, rfl⟩ := he.narrow_at (by omega) ht hn
      obtain ⟨z, wide⟩ := g
      cases wide
      · have hoff := he.colOffset_boundary
        have hx : Explicit { x with text := x.text.set (x.colOffset (cols pre)) z } w (pre ++ ⟨z, false⟩ :: post) :=
          he.setText (by rw [hoff]) rfl rfl rfl
        have hput : put (pre ++ ⟨y, false⟩ :: post) (cols pre) [⟨z, false⟩] = pre ++ ⟨z, false⟩ :: post := by
          have := overwrite_split (0x20 : Char32) pre [⟨y, false⟩] post [⟨z, false⟩] (by simp)
          simpa using this
        have hsh : Shows { x with text := x.text.set (x.colOffset (cols pre)) z } w (pre ++ ⟨z, false⟩ :: post) as :=
          ⟨hm'.width_le, hm'.columns_length, hm'.attrs_length, .explicit hx, hm'.attrs, by simp [he.notFilled]⟩
        rw [hput, Glyph.cols_single, fillRange_one _ (by rw [h.length_attrs]; simp at hc; omega)]
        exact (hsh.setAttr _ a).1
      · simp at hcols
    · exact hm'.spliceGlyph he g hc a

theorem writeGlyph_of_ge {c : Nat} (hc : r.width ≤ c) (t : List Char32) (n : Int) (a : TextAttribute) :
    r.writeGlyph c t n a = r := by
  simp [ScreenBufferRow.writeGlyph, hc]

/-- A wide glyph has one column left at the end of the row. -/
theorem writeGlyph_clamp {c : Nat} (hc : c + 1 = r.width) (t : List Char32) (a : TextAttribute) :
    r.writeGlyph c t 2 a = r.writeGlyph c t 1 a := by
  have h2 : (min (2 : Int) ((r.width : Int) - c)).toNat = 1 := by omega
  have h1 : (min (1 : Int) ((r.width : Int) - c)).toNat = 1 := by omega
  have hlt : ¬ r.width ≤ c := by omega
  simp only [ScreenBufferRow.writeGlyph, h1, h2, hlt, false_or, show ¬ (2 : Int) ≤ 0 by decide,
    show ¬ (1 : Int) ≤ 0 by decide, if_false]

end Corehost.ScreenBufferRow
