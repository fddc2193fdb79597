import Corehost.Row.Run

/-!
# Writing measured text

Every path of `write_measured_run` overwrites the strip with the whole run,
whatever the representation of the row:

* `placeColumns_eq`: the loop over the widths writes the offsets of the run;
* `Shows.onFilledRow`, `Shows.onSingleWidthLayout`, `Shows.fullRow`,
  `Shows.overwriteMatching`, `Shows.spliceMeasured`: the paths;
* `Shows.writeMeasuredRun`: all of them.
-/

namespace Corehost.ScreenBufferRow

open Lib Lib.Strip

variable {r r' : ScreenBufferRow} {w : Nat} {gs pre mid post new : List (Glyph Char32)} {as : List TextAttribute}

/-- The glyphs of measured text. -/
def measured (text : List Char32) (widths : List Nat) : List (Glyph Char32) :=
  List.zipWith (fun c w => ⟨c, w == 2⟩) text widths

theorem measured_cols {text : List Char32} {widths : List Nat} (hl : text.length = widths.length)
    (hw : ∀ w ∈ widths, w = 1 ∨ w = 2) :
    (measured text widths).map Glyph.char = text ∧ (measured text widths).map Glyph.cols = widths := by
  induction text generalizing widths with
  | nil => cases widths <;> simp_all [measured]
  | cons c text ih =>
    cases widths with
    | nil => simp at hl
    | cons w widths =>
      obtain ⟨h1, h2⟩ := ih (show text.length = widths.length by simpa using hl) fun v hv => hw v (List.mem_cons_of_mem _ hv)
      simp only [measured] at h1 h2
      rcases hw w List.mem_cons_self with rfl | rfl <;> simp [measured, h1, h2]

/-- The loop over the measured text writes the table of its glyphs. -/
theorem placeColumns_eq : ∀ {new : List (Glyph Char32)} {xs ys zs : List Nat} {c o : Nat}, c = xs.length →
    ys.length = cols new → xs.length + cols new < 0x10000 → o + new.length < 0x8000 →
    placeColumns (xs ++ ys ++ zs) c o (new.map Glyph.cols) = xs ++ table 0x8000 o new ++ zs
  | [], xs, ys, zs, c, o, hc, hy, _, _ => by
    obtain rfl : ys = [] := List.length_eq_zero_iff.mp hy
    simp [placeColumns]
  | ⟨x, false⟩ :: new, xs, ys, zs, c, o, hc, hy, hw, ho => by
    subst hc
    simp only [cols_cons, Glyph.cols_single, List.length_cons] at hy hw ho
    obtain ⟨y, ys, rfl⟩ : ∃ y ys', ys = y :: ys' := by cases ys <;> simp at hy ⊢; omega
    have hset : (xs ++ y :: ys ++ zs).set xs.length o = (xs ++ [o]) ++ ys ++ zs := by simp
    rw [List.map_cons, Glyph.cols_single, placeColumns, hset]
    simp only [Nat.sub_self, List.range'_zero, List.foldl_nil]
    rw [u16_of_lt (by omega), u16_of_lt (by omega),
      placeColumns_eq (by simp) (by simp at hy; omega) (by simp; omega) (by omega)]
    simp [table]
  | ⟨x, true⟩ :: new, xs, ys, zs, c, o, hc, hy, hw, ho => by
    subst hc
    simp only [cols_cons, Glyph.cols_double, List.length_cons] at hy hw ho
    obtain ⟨y, y', ys, rfl⟩ : ∃ y y' ys', ys = y :: y' :: ys' := by
      rcases ys with _ | ⟨y, _ | ⟨y', ys⟩⟩
      · simp at hy
        omega
      · simp at hy
        omega
      · exact ⟨y, y', ys, rfl⟩
    have hset : ((xs ++ y :: y' :: ys ++ zs).set xs.length o).set (xs.length + 1) (o + 0x8000) =
        (xs ++ [o, o + 0x8000]) ++ ys ++ zs := by
      simp [List.set_append_right]
    rw [List.map_cons, Glyph.cols_double, placeColumns]
    simp only [Nat.add_one_sub_one, List.range'_one, List.foldl_cons, List.foldl_nil]
    rw [u16_of_lt (by omega), u16_of_lt (by omega), u16_of_lt (by omega), lor_flag (by omega), hset,
      placeColumns_eq (by simp) (by simp at hy; omega) (by simp; omega) (by omega)]
    simp [table]

/-- The offsets that the paths for compressed rows rebuild: narrow glyphs on
both sides of the run. -/
theorem rebuild_columns {columns : List Nat} {xs ys : List Char32} {c e : Nat} (hc : c = xs.length) (he : e = c + cols new)
    (hw : e + ys.length = w) (hwl : w ≤ 0x7FFF) (hl : columns.length = w + 1) (hx : columns.take c = List.range' 0 c) :
    iota (placeColumns columns c c (new.map Glyph.cols)) e (w + 1) (u16 (c + new.length)) =
      table 0x8000 0 (xs.map (Glyph.mk · false) ++ new ++ ys.map (Glyph.mk · false)) ++
        [(xs.map (Glyph.mk · false) ++ new ++ ys.map (Glyph.mk · false)).length] := by
  have hnl := length_le_cols new
  have hsplit : columns = columns.take c ++ (columns.drop c).take (cols new) ++ columns.drop (c + cols new) := by
    rw [List.append_assoc, ← List.drop_drop, List.take_append_drop, List.take_append_drop]
  have hplace := @placeColumns_eq new (columns.take c) ((columns.drop c).take (cols new))
    (columns.drop (c + cols new)) c c (by simp; omega) (by simp; omega)
    (by simp; omega) (by omega)
  rw [← hsplit, hx] at hplace
  have hu : u16 (c + new.length) = c + new.length := u16_of_lt (by omega)
  rw [hplace, iota, hu, range'_map_u16 (by omega)]
  have hset := @setRange_split _ (List.range' 0 c ++ table 0x8000 c new) (columns.drop (c + cols new)) []
    (List.range' (c + new.length) (w + 1 - e)) e (by simp [he]) (by simp; omega)
  simp only [List.append_nil] at hset
  rw [hset, table_append, table_append, table_map_single, table_map_single, ← hc,
    show w + 1 - e = ys.length + 1 by omega, List.range'_concat]
  simp [← hc]
  omega

theorem replicate_split {α : Type*} {w c n : Nat} (h : c + n ≤ w) (x : α) :
    List.replicate w x = List.replicate c x ++ List.replicate n x ++ List.replicate (w - (c + n)) x := by
  rw [← List.replicate_add, ← List.replicate_add]
  congr 1; omega

/-- Whether the caller passes the widths, or says that they are all 1. -/
def Passes (allSingleWidth : Bool) (widths : List Nat) (new : List (Glyph Char32)) : Prop :=
  if allSingleWidth then ∀ g ∈ new, g.wide = false else widths = new.map Glyph.cols

theorem eq_map_single (h : ∀ g ∈ new, g.wide = false) : new = (new.map Glyph.char).map (Glyph.mk · false) := by
  rw [List.map_map]
  conv_lhs => rw [← List.map_id new]
  refine List.map_congr_left fun g hg => ?_
  obtain ⟨x, wide⟩ := g
  simpa using h _ hg

theorem Shows.onFilledRow (h : Shows r w gs as) (hf : r.filled = true) {c : Nat} {widths : List Nat} {all : Bool}
    (hp : Passes all widths new) (hne : new ≠ []) (hc : c + cols new ≤ w) (a : TextAttribute) :
    ∃ r', r.tryWriteMeasuredRunOnFilledRow c (new.map Glyph.char) widths (cols new) all a = some r' ∧
      Shows r' w (put gs c new) (fillRange as c (c + cols new) a) := by
  have hwl := h.width_le
  have hrw := h.width_eq
  have hpos : 0 < cols new := by
    have := length_le_cols new; have := List.length_pos_iff.mpr hne; omega
  have hend : u16 (c + cols new) = c + cols new := u16_of_lt (by omega)
  have hgs : gs = List.replicate w ⟨r.fillChar, false⟩ := by
    cases h.glyphs with
    | filled _ h => exact h
    | single h => simp [h] at hf
    | explicit h => simp [h.notFilled] at hf
  obtain ⟨hu, ha⟩ := h.fill hf
  have hput : put gs c new = (List.replicate c r.fillChar).map (Glyph.mk · false) ++ new ++
      (List.replicate (w - (c + cols new)) r.fillChar).map (Glyph.mk · false) := by
    rw [hgs, replicate_split hc]
    have := overwrite_split (0x20 : Char32) (List.replicate c ⟨r.fillChar, false⟩)
      (List.replicate (cols new) ⟨r.fillChar, false⟩)
      (List.replicate (w - (c + cols new)) ⟨r.fillChar, false⟩) new (by simp)
    rw [cols_replicate_single] at this
    rw [put, this, List.map_replicate, List.map_replicate]
  have hputc : cols (put gs c new) = w := by rw [put, cols_overwrite _ (by rw [h.cols_eq]; exact hc), h.cols_eq]
  have hl := h.columns_length
  have hcol : iota (placeColumns (iota r.columns 0 c 0) c c (new.map Glyph.cols)) (c + cols new) (w + 1)
      (u16 (c + new.length)) = table 0x8000 0 (put gs c new) ++ [(put gs c new).length] := by
    have hio := length_iota (l := r.columns) (a := 0) (b := c) 0 (by omega) (by omega)
    have htake : (iota r.columns 0 c 0).take c = List.range' 0 c := by
      rw [iota, range'_map_u16 (by omega), setRange]; simp
    rw [hput]
    exact rebuild_columns (by simp) rfl (by simp; omega) hwl (by omega) htake
  unfold tryWriteMeasuredRunOnFilledRow
  simp only [hend, hrw]
  rw [if_neg (by simp [hf, hne]; omega)]
  refine ⟨_, rfl, ?_⟩
  generalize hx : ({ r with text := _, columns := _, attrsUniform := true, uniformAttr := r.fillAttr } : ScreenBufferRow) = x
  have hxl : x.columns.length = w + 1 := by
    rw [← hx]
    cases all
    · simp only [Passes, Bool.false_eq_true, if_false] at hp
      simp only [Bool.false_eq_true, if_false, List.length_map, hp, hcol]
      simp [hputc]
    · simpa using (length_iota (l := r.columns) (a := 0) (b := r.columns.length) 0 (by omega) (by omega)).trans hl
  have hxa : x.attrs = r.attrs ∧ x.attrList = as := by
    rw [← hx]
    refine ⟨rfl, ?_⟩
    rw [← h.attrs, attrList, attrList, if_pos rfl, if_pos hu, ha]
  have hsame := writeAttrRange_same x c (c + cols new) a
  refine .of_writeAttrRange (a := a) hwl hxl (by rw [hxa.1, h.attrs_length]) hxa.2 (by omega) hc
    (by rw [← hxl]; exact congrArg List.length hsame.columns) rfl rfl rfl rfl ?_
  cases all
  · refine .explicit ⟨rfl, rfl, hwl, hputc, ?_, ?_⟩
    · refine Eq.trans hsame.text ?_
      rw [← hx, hput]
      simp
    · refine Eq.trans hsame.columns ?_
      simp only [Passes, Bool.false_eq_true, if_false] at hp
      rw [← hx, hp]
      simpa using hcol
  · have hnw : ∀ g ∈ new, g.wide = false := by simpa [Passes] using hp
    have htext : x.text = List.replicate c r.fillChar ++ new.map Glyph.char ++
        List.replicate (w - (c + cols new)) r.fillChar := by rw [← hx]
    refine .single rfl rfl ?_ ?_
    · refine (congrArg List.length hsame.text).trans ?_
      rw [htext]
      simp [← cols_eq_length hnw]; omega
    · refine Eq.trans ?_ (congrArg (List.map (Glyph.mk · false)) hsame.text).symm
      rw [htext, hput, List.map_append, List.map_append, ← eq_map_single hnw]

theorem Shows.onSingleWidthLayout (h : Shows r w gs as) (hf : r.filled = false) (hs : r.singleWidthLayout = true) {c : Nat}
    (hne : new ≠ []) (hc : c + cols new ≤ w) (a : TextAttribute) :
    ∃ r', r.tryWriteMeasuredRunOnSingleWidthLayout c (new.map Glyph.char) (new.map Glyph.cols) (cols new) a = some r' ∧
      Shows r' w (put gs c new) (fillRange as c (c + cols new) a) := by
  have hwl := h.width_le
  have hpos : 0 < cols new := by
    have := length_le_cols new; have := List.length_pos_iff.mpr hne; omega
  have hend : u16 (c + cols new) = c + cols new := u16_of_lt (by omega)
  have hg : r.text.length = w ∧ gs = r.text.map (Glyph.mk · false) := by
    cases h.glyphs with
    | filled h => simp [h] at hf
    | single _ _ ht h => exact ⟨ht, h⟩
    | explicit h => simp [h.notSingle] at hs
  have hsplit : r.text = r.text.take c ++ (r.text.drop c).take (cols new) ++ r.text.drop (c + cols new) := by
    rw [List.append_assoc, ← List.drop_drop, List.take_append_drop, List.take_append_drop]
  have hlen : (r.text.take c).length = c := by rw [List.length_take]; omega
  have hput : put gs c new = (r.text.take c).map (Glyph.mk · false) ++ new ++
      (r.text.drop (c + cols new)).map (Glyph.mk · false) := by
    have := overwrite_split (0x20 : Char32) ((r.text.take c).map (Glyph.mk · false))
      (((r.text.drop c).take (cols new)).map (Glyph.mk · false))
      ((r.text.drop (c + cols new)).map (Glyph.mk · false)) new
      (by rw [cols_map_single, List.length_take, List.length_drop]; omega)
    rw [cols_map_single, hlen, ← List.map_append, ← List.map_append, ← hsplit, ← hg.2] at this
    exact this
  have hputc : cols (put gs c new) = w := by rw [put, cols_overwrite _ (by rw [h.cols_eq]; exact hc), h.cols_eq]
  have hcol : iota (placeColumns (iota r.columns 0 r.columns.length 0) c c (new.map Glyph.cols)) (c + cols new) (w + 1)
      (u16 (c + new.length)) = table 0x8000 0 (put gs c new) ++ [(put gs c new).length] := by
    have hl := h.columns_length
    have hio := length_iota (l := r.columns) (a := 0) (b := r.columns.length) 0 (by omega) (by omega)
    have htake : (iota r.columns 0 r.columns.length 0).take c = List.range' 0 c := by
      rw [iota, range'_map_u16 (by omega), setRange]
      rw [hl, List.take_zero, List.nil_append, List.take_append_of_le_length (by simp; omega),
        List.take_range'_of_length_ge (by omega)]
    rw [hput]
    exact rebuild_columns hlen.symm rfl (by rw [List.length_drop]; omega) hwl (by omega) htake
  unfold tryWriteMeasuredRunOnSingleWidthLayout
  simp only [hend, h.width_eq, List.length_map, hcol]
  rw [if_neg (by simp [hne]; omega), if_neg (by simp [hf, hs])]
  refine ⟨_, rfl, ?_⟩
  generalize hx : ({ r with text := replace r.text c (cols new) (new.map Glyph.char), columns := _ } : ScreenBufferRow) = x
  have hsame := writeAttrRange_same x c (c + cols new) a
  have hxl : x.columns.length = w + 1 := by rw [← hx]; simp [hputc]
  refine .of_writeAttrRange (x := x) (a := a) hwl hxl (by rw [← hx, ← h.attrs_length])
    (by rw [← hx, ← h.attrs]; rfl) (by omega) hc
    (by rw [← hxl]; exact congrArg List.length hsame.columns) rfl rfl rfl (hsame.filled.trans (by rw [← hx]; exact hf)) ?_
  refine .explicit ⟨hsame.filled.trans (by rw [← hx]; exact hf), rfl, hwl, hputc, ?_, ?_⟩
  · refine Eq.trans hsame.text ?_
    have := @replace_split _ (r.text.take c) ((r.text.drop c).take (cols new)) (r.text.drop (c + cols new))
      c (cols new) hlen.symm (by rw [List.length_take, List.length_drop]; omega) (new.map Glyph.char)
    rw [← hsplit] at this
    rw [← hx, hput]
    simp [this, Function.comp_def]
  · exact hsame.columns.trans (by rw [← hx])

theorem Shows.fullRow (h : Shows r w gs as) {widths : List Nat} {all : Bool} (hp : Passes all widths new)
    (hc : cols new = w) (a : TextAttribute) :
    Shows (r.writeFullRow (new.map Glyph.char) widths all a) w (put gs 0 new) (fillRange as 0 (0 + cols new) a) := by
  have hwl := h.width_le
  have hl := h.columns_length
  have hput : put gs 0 new = new := by
    have := overwrite_split (0x20 : Char32) [] gs [] new (by rw [h.cols_eq, hc])
    simpa [put] using this
  have has : fillRange as 0 (0 + cols new) a = List.replicate w a := by
    have := fillRange_all as a
    rwa [h.length_attrs, ← hc, Nat.zero_add, hc] at *
  rw [hput, has]
  unfold writeFullRow
  cases all
  · simp only [Passes, Bool.false_eq_true, if_false] at hp
    have hnl := length_le_cols new
    have hplace := @placeColumns_eq new [] (r.columns.take w) (r.columns.drop w) 0 0
      rfl (by simp; omega) (by simp; omega) (by omega)
    rw [List.nil_append, List.take_append_drop, List.nil_append] at hplace
    have hcol : (placeColumns r.columns 0 0 widths).set r.width (u16 (new.map Glyph.char).length) =
        table 0x8000 0 new ++ [new.length] := by
      obtain ⟨x, hx⟩ : ∃ x, r.columns.drop w = [x] := List.length_eq_one_iff.mp (by simp; omega)
      rw [hp, hplace, hx, h.width_eq, List.length_map, u16_of_lt (by omega), List.set_append_right _ _ (by simp [hc])]
      simp [hc]
    simp only [Bool.false_eq_true, if_false, hcol]
    refine ⟨hwl, by simp [hc], h.attrs_length, .explicit ⟨rfl, rfl, hwl, hc, rfl, rfl⟩, ?_, by simp⟩
    simp [attrList, h.attrs_length]
  · have hnw : ∀ g ∈ new, g.wide = false := by simpa [Passes] using hp
    refine ⟨hwl, by simpa using hl, h.attrs_length, .single rfl rfl ?_ (eq_map_single hnw), ?_, by simp⟩
    · rw [← hc, cols_eq_length hnw]; simp
    · simp [attrList, h.attrs_length]

/-! ### The run has the layout of the row -/

theorem Explicit.matchesLayout_some {o cell : Nat} : ∀ {ws : List Nat} {pre rest : List (Glyph Char32)} {i : Nat},
    Explicit r w (pre ++ rest) → (∀ v ∈ ws, v = 1 ∨ v = 2) → o + i = pre.length →
    r.matchesLayout o (cols pre) i ws = some cell → r.colOffset cell = pre.length + ws.length →
    ∃ mid post, rest = mid ++ post ∧ mid.map Glyph.cols = ws ∧ cell = cols pre + cols mid
  | [], pre, rest, i, _, _, _, hm, _ => by
    refine ⟨[], rest, rfl, rfl, ?_⟩
    simpa [matchesLayout, eq_comm] using hm
  | v :: ws, pre, rest, i, h, hv, ho, hm, hoff => by
    have hwl := h.width_le
    have hcols := h.cols_eq
    rw [cols_append] at hcols
    rw [matchesLayout, h.width_eq] at hm
    split at hm
    · simp at hm
    · rename_i hcell
      split at hm
      · simp at hm
      · split at hm
        · rename_i hall
          obtain ⟨⟨x, wide⟩, rest, rfl⟩ : ∃ g rest', rest = g :: rest' := by
            cases rest with
            | nil => simp at hcols; omega
            | cons g rest => exact ⟨g, rest, rfl⟩
          have h' : Explicit r w ((pre ++ [⟨x, wide⟩]) ++ rest) := by simpa using h
          have hstep : cols (pre ++ [⟨x, wide⟩]) = cols pre + v → ∃ mid post, ⟨x, wide⟩ :: rest = mid ++ post ∧
              mid.map Glyph.cols = v :: ws ∧ cell = cols pre + cols mid := by
            intro he
            rw [u16_of_lt (by omega), ← he] at hm
            obtain ⟨mid, post, rfl, hmid, hcell⟩ := Explicit.matchesLayout_some h'
              (fun v hv' => hv v (List.mem_cons_of_mem _ hv')) (by simp; omega) hm (by simp at hoff ⊢; omega)
            have hg : Glyph.cols ⟨x, wide⟩ = v := by simpa using he
            exact ⟨⟨x, wide⟩ :: mid, post, rfl, by simp [hg, hmid], by rw [hcell, he]; simp [hg]; omega⟩
          rcases hv v List.mem_cons_self with rfl | rfl
          · cases wide
            · exact hstep (by simp)
            · -- the second column of a wide glyph starts no glyph of the text
              exfalso
              have hin := h.isTrailing_inside
              rw [u16_of_lt (by omega)] at hm
              cases ws with
              | nil =>
                obtain rfl : cols pre + 1 = cell := by simpa [matchesLayout] using hm
                rw [h.colOffset_inside] at hoff
                simp at hoff
              | cons v ws => simp [matchesLayout, hin] at hm
          · cases wide
            · exfalso
              have := h'.isTrailing_boundary
              simp only [cols_append, cols_cons, cols_nil, Glyph.cols_single, Nat.add_zero] at this
              simp [u16_of_lt (show cols pre + 1 < 0x10000 by omega), this] at hall
            · exact hstep (by simp)
        · simp at hm

theorem Shows.overwriteMatching (h : Shows r w gs as) (he : Explicit r w gs) {c : Nat} (hc : c + cols new ≤ w) {a : TextAttribute}
    (hm : r.tryOverwriteMatchingMeasuredRun c (new.map Glyph.char) (new.map Glyph.cols) (cols new) a = some r') :
    Shows r' w (put gs c new) (fillRange as c (c + cols new) a) := by
  have hwl := h.width_le
  have hgs := h.cols_eq
  have hend : u16 (c + cols new) = c + cols new := u16_of_lt (by omega)
  unfold tryOverwriteMatchingMeasuredRun at hm
  simp only [hend, List.length_map] at hm
  rw [if_neg (by simp [he.notFilled])] at hm
  split at hm
  · simp at hm
  · rename_i hguard
    have ht : r.isTrailing c = false := by simp_all
    obtain ⟨pre, rest, rfl, rfl⟩ : ∃ pre rest, gs = pre ++ rest ∧ c = cols pre := by
      rcases boundary_or_inside (show c ≤ cols gs by omega) with h | ⟨pre, x, post, rfl, rfl⟩
      · exact h
      · simp [he.isTrailing_inside] at ht
    split at hm
    · simp at hm
    · split at hm
      · simp at hm
      · rename_i cell hml
        split at hm
        · simp at hm
        · rename_i hcell
          simp only [not_or, ne_eq, not_not] at hcell
          obtain ⟨rfl, hoff⟩ := hcell
          rw [he.colOffset_boundary] at hm hml hoff
          obtain ⟨mid, post, rfl, hmid, -⟩ := Explicit.matchesLayout_some he
            (fun v hv => by
              obtain ⟨g, -, rfl⟩ := List.mem_map.mp hv
              unfold Glyph.cols; split <;> simp)
            (by omega) hml (by simpa using hoff)
          rw [← List.append_assoc] at he h ⊢
          have hx : Explicit { r with text := setRange r.text pre.length (new.map Glyph.char) } w (pre ++ new ++ post) :=
            he.inPlace hmid rfl rfl rfl rfl
          have hsh : Shows { r with text := setRange r.text pre.length (new.map Glyph.char) } w (pre ++ new ++ post) as :=
            ⟨hwl, h.columns_length, h.attrs_length, .explicit hx, h.attrs, h.fill⟩
          have hput : put (pre ++ mid ++ post) (cols pre) new = pre ++ new ++ post :=
            overwrite_split _ _ _ _ _ (cols_congr hmid)
          rw [hput]
          obtain rfl := Option.some.inj hm
          exact hsh.writeAttrRange he.notFilled a (Nat.le_add_right _ _) hc

/-! ### Splicing the run -/

theorem Shows.spliceMeasured (h : Shows r w gs as) (he : Explicit r w gs) {c : Nat} (hc : c + cols new ≤ w) (a : TextAttribute) :
    Shows (r.spliceMeasuredRun c (new.map Glyph.char) (new.map Glyph.cols) (cols new) a) w (put gs c new)
      (fillRange as c (c + cols new) a) := by
  have hw := h.width_le
  have hgs := h.cols_eq
  have hnl := length_le_cols new
  obtain ⟨mid, hmid, hx, hx1, hx2, hx3⟩ := he.cut_cut (show c ≤ c + cols new by omega) hc
  rw [Nat.add_sub_cancel_left] at hmid
  have hhead : cols (headTo 0x20 gs c) = c := cols_headTo _ (by omega)
  have hml := length_le_cols mid
  have hlen := hx.length_le
  simp only [List.length_append] at hlen
  have hxcols := hx.cols_eq
  simp only [cols_append, hmid] at hxcols
  generalize hhd : headTo 0x20 gs c = pre at hx hhead hlen hxcols
  generalize htl : tailFrom 0x20 gs (c + cols new) = post at hx hlen hxcols
  have hpostl := length_le_cols post
  have hprel := length_le_cols pre
  have hend : u16 (c + cols new) = c + cols new := u16_of_lt (by omega)
  unfold ScreenBufferRow.spliceMeasuredRun
  simp only [hend, List.length_map]
  generalize (r.blankGlyphCutAt c).blankGlyphCutAt (c + cols new) = x at hx hx1 hx2 hx3
  have hstart : x.colOffset c = pre.length := by
    have := (show Explicit x w (pre ++ (mid ++ post)) by simpa using hx).colOffset_boundary
    rwa [hhead] at this
  have hstop : x.colOffset (c + cols new) = pre.length + mid.length := by
    have := hx.colOffset_boundary
    rwa [cols_append, hhead, hmid, List.length_append] at this
  have hold : u16 (if pre.length ≤ pre.length + mid.length then pre.length + mid.length - pre.length else 0) = mid.length := by
    rw [if_pos (by omega), Nat.add_sub_cancel_left, u16_of_lt (by omega)]
  have hnew : u16 new.length = new.length := u16_of_lt (by omega)
  have hdelta : i16 (i16 (new.length : Int) - i16 (mid.length : Int)) = (new.length : Int) - mid.length := by
    rw [i16_of_range (n := (new.length : Int)) (by omega) (by omega),
      i16_of_range (n := (mid.length : Int)) (by omega) (by omega)]
    exact i16_of_range (by omega) (by omega)
  rw [hstart, hstop, hold, hnew, hdelta]
  clear hold hnew hdelta
  have htext : replace x.text pre.length mid.length ((new.map Glyph.char).take new.length) =
      pre.map Glyph.char ++ new.map Glyph.char ++ post.map Glyph.char := by
    rw [hx.text_eq, List.map_append, List.map_append, replace_split (by simp) (by simp), List.take_of_length_le (by simp)]
  rw [htext]
  have hshift := shiftColumns_split (table 0x8000 0 pre ++ table 0x8000 pre.length mid) post (pre.length + new.length)
    (n := c + cols new)
    (r := { x with text := pre.map Glyph.char ++ new.map Glyph.char ++ post.map Glyph.char })
    (o := (pre ++ mid).length) (d := (new.length : Int) - mid.length) (by simp [hhead, hmid])
    (by simp only [List.length_append]; omega) (by simp only [List.length_append]; omega) (by omega)
    (by simp only [hx.columns_eq, table_split])
  generalize hy : ScreenBufferRow.shiftColumnsFrom _ _ _ = y at hshift ⊢
  have hy' : y.filled = x.filled ∧ y.text = pre.map Glyph.char ++ new.map Glyph.char ++ post.map Glyph.char ∧
      y.attrs = x.attrs ∧ y.attrsUniform = x.attrsUniform ∧ y.uniformAttr = x.uniformAttr := by
    subst hy; exact ⟨rfl, rfl, rfl, rfl, rfl⟩
  obtain ⟨e1, e3, e4, e5, e6⟩ := hy'
  have hplace : placeColumns y.columns c pre.length (new.map Glyph.cols) = table 0x8000 0 pre ++ table 0x8000 pre.length new ++
      (table 0x8000 (pre.length + new.length) post ++ [pre.length + new.length + post.length]) := by
    rw [hshift]
    exact placeColumns_eq (by simp [hhead]) (by simp [hmid]) (by simp; omega) (by omega)
  rw [hplace]
  generalize hz : ({ y with columns := _ } : ScreenBufferRow) = z
  have hzl : z.columns.length = w + 1 := by rw [← hz]; simp [hhead]; omega
  have hsame := writeAttrRange_same z c (c + cols new) a
  have hzw := width_of_length hzl hw
  have hlast : (z.writeAttrRange c (c + cols new) a).columns.set (z.writeAttrRange c (c + cols new) a).width
      (u16 (z.writeAttrRange c (c + cols new) a).text.length) = z.columns := by
    rw [hsame.width, hsame.columns, hsame.text, hzw]
    have : z.text.length = pre.length + new.length + post.length := by rw [← hz]; simp [e3]; omega
    rw [this, u16_of_lt (by omega), ← hz]
    simp only
    rw [← List.append_assoc, List.set_append_right _ _ (by simp [hhead]; omega)]
    simp [hhead, show w - (c + (cols new + cols post)) = 0 by omega]
  rw [hlast]
  have hzx : Explicit { z.writeAttrRange c (c + cols new) a with columns := z.columns, singleWidthLayout := false } w
      (pre ++ new ++ post) := by
    refine hx.splice hmid.symm (hsame.filled.trans ?_) rfl (hsame.text.trans ?_) ?_
    · rw [← hz]; exact e1.trans hx.notFilled
    · rw [← hz]; exact e3
    · rw [← hz]
  refine .of_writeAttrRange (x := z) (a := a) hw hzl ?_ ?_ (by omega) hc hzl rfl rfl rfl hzx.notFilled ?_
  · rw [← hz]; exact (congrArg List.length (e4.trans hx1)).trans h.attrs_length
  · rw [← hz]; simp only [attrList, e4, e5, e6, hx1, hx2, hx3]; exact h.attrs
  · rw [put, overwrite, hhd, htl]; exact .explicit hzx

/-! ## write_measured_run -/

/-- A row that `try_write_single_width_run` leaves alone although the run fits
has an offset table. -/
theorem Shows.explicit_of_try (h : Shows r w gs as) (hf : r.filled = false) {c : Nat} {text : List Char32} {a : TextAttribute}
    (hfit : c + text.length ≤ w) (hne : text ≠ []) (ht : (r.tryWriteSingleWidthRun c text a).1 = false) :
    Explicit r w gs ∧ (r.tryWriteSingleWidthRun c text a).2 = r := by
  have hpos := List.length_pos_iff.mpr hne
  have hfit' : ¬ (w ≤ c ∨ w - c < text.length) := by omega
  unfold ScreenBufferRow.tryWriteSingleWidthRun at ht ⊢
  simp only [materializeFilled_of_not hf, h.width_eq, List.isEmpty_eq_false_iff.mpr hne, Bool.false_eq_true, if_false,
    hfit'] at ht ⊢
  split at ht
  · simp at ht
  · rename_i hs
    rw [if_neg hs]
    refine ⟨h.explicit (by simp_all), ?_⟩
    split at ht
    · simp at ht
    · rename_i hall
      rw [if_neg hall]

/-- `write_measured_run`. The widths are those of the glyphs, unless the call
replaces the whole row by narrow glyphs. -/
theorem Shows.writeMeasuredRun (h : Shows r w gs as) {c : Nat} (widths : List Nat) (all : Bool) (hp : Passes all widths new)
    (hall : all = true → (c = 0 ∧ cols new = w) ∨ widths = new.map Glyph.cols) (hne : new ≠ [])
    (hc : c + cols new ≤ w) (a : TextAttribute) :
    Shows (r.writeMeasuredRun c (new.map Glyph.char) widths (cols new) all a) w (put gs c new)
      (fillRange as c (c + cols new) a) := by
  have hrw := h.width_eq
  unfold ScreenBufferRow.writeMeasuredRun
  rw [if_neg (by simpa using hne)]
  cases hf : r.filled
  · rw [show r.tryWriteMeasuredRunOnFilledRow c (new.map Glyph.char) widths (cols new) all a = none by
      simp [tryWriteMeasuredRunOnFilledRow, hf]]
    dsimp only
    split
    · rename_i hfull
      rw [hfull.1]
      exact h.fullRow hp (by rw [← hrw]; exact hfull.2) a
    · rename_i hfull
      rw [hrw] at hfull
      cases all
      · simp only [Passes, Bool.false_eq_true, if_false] at hp
        simp only [Bool.false_eq_true, if_false, hp]
        cases hs : r.singleWidthLayout
        · have he := h.explicit (by simp [hf, hs])
          rw [show r.tryWriteMeasuredRunOnSingleWidthLayout c (new.map Glyph.char) (new.map Glyph.cols) (cols new) a = none by
            simp [tryWriteMeasuredRunOnSingleWidthLayout, hs]]
          cases hm : r.tryOverwriteMatchingMeasuredRun c (new.map Glyph.char) (new.map Glyph.cols) (cols new) a with
          | some r' => exact h.overwriteMatching he hc hm
          | none => exact h.spliceMeasured he hc a
        · obtain ⟨r', hr', hsh⟩ := h.onSingleWidthLayout hf hs hne hc a
          rw [hr']
          exact hsh
      · have hw := (hall rfl).resolve_left hfull
        have hnw : ∀ g ∈ new, g.wide = false := by simpa [Passes] using hp
        have hlen : (new.map Glyph.char).length = cols new := by rw [List.length_map, cols_eq_length hnw]
        obtain ⟨h1, -, h3⟩ := h.trySingleWidthRun c (new.map Glyph.char) a
        simp only [if_true]
        cases ht : (r.tryWriteSingleWidthRun c (new.map Glyph.char) a).1
        · obtain ⟨he, hr⟩ := h.explicit_of_try hf (by omega) (by simpa using hne) ht
          rw [hr, hw]
          simpa using h.spliceMeasured he hc a
        · have := (h3 ht (by simpa using hne)).2
          rw [hlen, ← eq_map_single hnw] at this
          simpa using this
  · obtain ⟨r', hr', hsh⟩ := h.onFilledRow hf hp hne hc a
    rw [hr']
    exact hsh

/-- The run that `write_text_row` writes. -/
theorem Shows.writeTextRun (h : Shows r w gs as) {c : Nat} (hne : new ≠ []) (hc : c + cols new ≤ w) (a : TextAttribute) :
    Shows (r.writeTextRun c (new.map Glyph.char) (new.map Glyph.cols) a) w (put gs c new)
      (fillRange as c (c + cols new) a) := by
  have hwl := h.width_le
  unfold ScreenBufferRow.writeTextRun
  rw [if_neg (by simpa using hne), sum_map_cols, u16_of_lt (by omega)]
  split
  · rename_i hall
    have hnw : ∀ g ∈ new, g.wide = false := by
      intro ⟨x, wide⟩ hg
      have : Glyph.cols ⟨x, wide⟩ = 1 := by
        simp only [List.all_map, List.all_eq_true] at hall
        simpa using hall _ hg
      cases wide
      · rfl
      · simp at this
    have hlen : (new.map Glyph.char).length = cols new := by rw [List.length_map, cols_eq_length hnw]
    have hones : List.replicate new.length 1 = new.map Glyph.cols := by
      rw [eq_comm, List.eq_replicate_iff]
      refine ⟨by simp, fun v hv => ?_⟩
      obtain ⟨⟨x, wide⟩, hg, rfl⟩ := List.mem_map.mp hv
      have : wide = false := hnw _ hg
      simp [this]
    split
    · rename_i hfull
      exact h.writeMeasuredRun [] true (by simpa [Passes] using hnw)
        (fun _ => .inl ⟨hfull.1, by rw [← h.width_eq]; exact hfull.2⟩)
        hne hc a
    · obtain ⟨h1, -, h3⟩ := h.trySingleWidthRun c (new.map Glyph.char) a
      cases ht : (r.tryWriteSingleWidthRun c (new.map Glyph.char) a).1
      · have := (h1 ht).writeMeasuredRun (new.map Glyph.cols) false (by simp [Passes]) (by simp) hne hc a
        simpa [ht, hones] using this
      · have := (h3 ht (by simpa using hne)).2
        rw [hlen, ← eq_map_single hnw] at this
        simpa [ht] using this
  · exact h.writeMeasuredRun _ false (by simp [Passes]) (by simp) hne hc a

end Corehost.ScreenBufferRow
