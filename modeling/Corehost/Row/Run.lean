import Corehost.Row.Glyph

/-!
# Writing a run of narrow glyphs

`Shows.trySingleWidthRun`: when `try_write_single_width_run` succeeds, it
overwrites the strip with the whole run, and otherwise the row shows what it
showed before.
-/

namespace Corehost.ScreenBufferRow

open Lib Lib.Strip

variable {r r' : ScreenBufferRow} {w : Nat} {gs pre mid post new : List (Glyph Char32)} {as : List TextAttribute}

theorem sum_map_cols (gs : List (Glyph Char32)) : (gs.map Glyph.cols).sum = cols gs := by
  induction gs with
  | nil => rfl
  | cons g gs ih => simp [ih]

/-- The explicit row after a range of whole glyphs has been replaced by glyphs
of the same widths in place. -/
theorem Explicit.inPlace (h : Explicit r w (pre ++ mid ++ post)) (hl : mid.map Glyph.cols = new.map Glyph.cols)
    (ht : r'.text = setRange r.text pre.length (new.map Glyph.char)) (hf : r'.filled = r.filled)
    (hs : r'.singleWidthLayout = r.singleWidthLayout) (hc : r'.columns = r.columns) :
    Explicit r' w (pre ++ new ++ post) := by
  have hlen : mid.length = new.length := by simpa using congrArg List.length hl
  have hall : (pre ++ mid ++ post).map Glyph.cols = (pre ++ new ++ post).map Glyph.cols := by simp [hl]
  refine ⟨hf.trans h.notFilled, hs.trans h.notSingle, h.width_le, ?_, ?_, ?_⟩
  · rw [← cols_congr hall, h.cols_eq]
  · rw [ht, h.text_eq, List.map_append, List.map_append, setRange_split (by simp) (by simp [hlen])]
    simp
  · rw [hc, h.columns_eq, table_congr _ hall]; simp [hlen]

/-! ## try_write_single_width_run -/

theorem Explicit.simple_cells (h : Explicit r w gs) {c : Nat} : ∀ {n : Nat}, c + n ≤ w → 0 < n →
    (∀ i < n, r.isSimpleCell (c + i) = true) →
    ∃ pre mid post, gs = pre ++ mid ++ post ∧ c = cols pre ∧ mid.map Glyph.cols = List.replicate n 1
  | 0, _, h0, _ => absurd h0 (by simp)
  | n + 1, hn, _, hs => by
    have hwl := h.width_le
    have hcell := hs n (by omega)
    have hu : u16 (c + n + 1) = c + n + 1 := u16_of_lt (by omega)
    simp only [isSimpleCell, hu, h.width_eq, Bool.and_eq_true, Bool.not_eq_true', Bool.and_eq_false_iff,
      decide_eq_false_iff_not] at hcell
    obtain ⟨⟨⟨h1, h2⟩, -⟩, -⟩ := hcell
    obtain ⟨pre', x, post', hg, hp⟩ := h.narrow_at (c := c + n) (by omega) h1
      (h2.imp (fun h => by omega) (fun h => h))
    rcases Nat.eq_zero_or_pos n with rfl | hn0
    · exact ⟨pre', [⟨x, false⟩], post', by simp [hg], by omega, by simp⟩
    · obtain ⟨pre, mid, post, he, rfl, hm⟩ := Explicit.simple_cells h (c := c) (n := n) (by omega) hn0
        fun i hi => hs i (by omega)
      have hmid : cols mid = n := by rw [← sum_map_cols, hm]; simp
      have hpm : pre ++ mid = pre' := by
        have h1 := headTo_append (0x20 : Char32) (pre ++ mid) post
        have h2 := headTo_append (0x20 : Char32) pre' (⟨x, false⟩ :: post')
        rw [← he, cols_append, hmid, hp, hg, h2] at h1
        exact h1.symm
      refine ⟨pre, mid ++ [⟨x, false⟩], post', by simp [hg, ← hpm], rfl, ?_⟩
      rw [List.map_append, hm, List.replicate_succ']
      simp

theorem Shows.trySingleWidthRun (h : Shows r w gs as) (c : Nat) (text : List Char32) (a : TextAttribute) :
    ((r.tryWriteSingleWidthRun c text a).1 = false → Shows (r.tryWriteSingleWidthRun c text a).2 w gs as) ∧
    ((r.tryWriteSingleWidthRun c text a).1 = true → text = [] → Shows (r.tryWriteSingleWidthRun c text a).2 w gs as) ∧
    ((r.tryWriteSingleWidthRun c text a).1 = true → text ≠ [] → c + text.length ≤ w ∧
      Shows (r.tryWriteSingleWidthRun c text a).2 w (put gs c (text.map (Glyph.mk · false)))
        (fillRange as c (c + text.length) a)) := by
  have hm := h.materializeFilled
  have hmf := materializeFilled_filled r
  have hwl := h.width_le
  unfold ScreenBufferRow.tryWriteSingleWidthRun
  simp only [hm.width_eq]
  split
  · rename_i ht
    rw [List.isEmpty_iff] at ht
    exact ⟨by simp, fun _ _ => hm, fun _ h => absurd ht h⟩
  · rename_i ht
    split
    · exact ⟨fun _ => hm, by simp, by simp⟩
    · rename_i hfit
      have hne : text ≠ [] := by simpa using ht
      have hpos : 0 < text.length := List.length_pos_iff.mpr hne
      have hcw : c + text.length ≤ w := by omega
      split
      · rename_i hs
        have hg : r.materializeFilled.text.length = w ∧ gs = r.materializeFilled.text.map (Glyph.mk · false) := by
          cases hm.glyphs with
          | filled h => simp [h] at hmf
          | single _ _ ht h => exact ⟨ht, h⟩
          | explicit h => simp [h.notSingle] at hs
        have hput := put_map_single r.materializeFilled.text text (c := c) (by omega)
        rw [← hg.2] at hput
        have hx : Shows { r.materializeFilled with text := setRange r.materializeFilled.text c text } w
            (put gs c (text.map (Glyph.mk · false))) as :=
          ⟨hm.width_le, hm.columns_length, hm.attrs_length,
            .single hmf hs (by rw [length_setRange (by omega), hg.1]) hput, hm.attrs, hm.fill⟩
        refine ⟨by simp, fun _ h => absurd h hne, fun _ _ => ⟨hcw, ?_⟩⟩
        rw [u16_of_lt (by omega)]
        exact hx.writeAttrRange hmf a (by omega) hcw
      · rename_i hs
        have he : Explicit r.materializeFilled w gs := hm.explicit (by simp_all)
        have hcount : u16 text.length = text.length := u16_of_lt (by omega)
        split
        · rename_i hall
          rw [hcount, List.all_eq_true] at hall
          have hcells : ∀ i < text.length, r.materializeFilled.isSimpleCell (c + i) = true := fun i hi => by
            have := hall i (List.mem_range.mpr hi)
            rwa [u16_of_lt (by omega)] at this
          obtain ⟨pre, mid, post, rfl, rfl, hmid⟩ := he.simple_cells hcw hpos hcells
          have hmcols : cols mid = text.length := by rw [← sum_map_cols, hmid]; simp
          have hmlen : mid.length = text.length := by simpa using congrArg List.length hmid
          have hoff : ∀ i, 0 ≤ i → i < 0 + text.length →
              r.materializeFilled.colOffset (u16 (cols pre + i)) = pre.length + i := by
            intro i _ hi
            have hnarrow : ∀ n, n ≤ mid.length → cols (mid.take n) = n := by
              intro n hn
              rw [← sum_map_cols, List.map_take, hmid, List.take_replicate]; simp; omega
            have hsplit : pre ++ mid ++ post = (pre ++ mid.take i) ++ (mid.drop i ++ post) := by
              simp only [List.append_assoc, ← List.append_assoc (mid.take i), List.take_append_drop]
            have := (hsplit ▸ he).colOffset_boundary
            rw [cols_append, hnarrow i (by omega), List.length_append, List.length_take,
              Nat.min_eq_left (by omega)] at this
            rw [u16_of_lt (by omega), this]
          have hfold := foldl_set_zipIdx text (f := fun i => r.materializeFilled.colOffset (u16 (cols pre + i)))
            (a := pre.length) (k := 0) (l := r.materializeFilled.text) hoff
            (by rw [he.text_eq]; simp; omega)
          have hx : Explicit { r.materializeFilled with
              text := setRange r.materializeFilled.text pre.length text } w
              (pre ++ text.map (Glyph.mk · false) ++ post) :=
            he.inPlace (by rw [hmid, List.map_map]; simp [Function.comp_def])
              (by simp [Function.comp_def]) rfl rfl rfl
          have hput : put (pre ++ mid ++ post) (cols pre) (text.map (Glyph.mk · false)) =
              pre ++ text.map (Glyph.mk · false) ++ post := overwrite_split _ _ _ _ _ (by simp [hmcols])
          have hsh : Shows { r.materializeFilled with
              text := setRange r.materializeFilled.text pre.length text } w
              (pre ++ text.map (Glyph.mk · false) ++ post) as :=
            ⟨hm.width_le, hm.columns_length, hm.attrs_length, .explicit hx, hm.attrs, hm.fill⟩
          refine ⟨by simp, fun _ h => absurd h hne, fun _ _ => ⟨hcw, ?_⟩⟩
          rw [Nat.add_zero] at hfold
          rw [hcount, u16_of_lt (by omega), hput, hfold]
          exact hsh.writeAttrRange hmf a (by omega) hcw
        · exact ⟨fun _ => hm, by simp, by simp⟩

end Corehost.ScreenBufferRow
