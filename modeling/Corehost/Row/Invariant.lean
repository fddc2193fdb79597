import Corehost.Row.Measured
import Mathlib.Data.List.TakeWhile

/-!
# The representation invariant of a row

* `WellFormed r w`: the invariant, column by column;
* `wellFormed_iff`: a row is well formed exactly when it shows some strip of
  glyphs;
* `Built r`: the rows that sequences of row operations build;
* `Built.wellFormed`: they are all well formed.
-/

namespace Corehost.ScreenBufferRow

open Lib Lib.Strip

variable {r src : ScreenBufferRow} {w : Nat} {gs : List (Glyph Char32)} {as : List TextAttribute}

/-- The entry of `_columns` has its trailing flag set. -/
def Flagged (e : Nat) : Prop := e &&& TRAILING_FLAG ≠ 0

/-- An offset table of `w` columns over `n` characters. Column `c + 1` either
starts the glyph after the one at column `c`, or is the second column of the
glyph that starts at `c`; the entry past the last column counts as a start. -/
structure TableOk (columns : List Nat) (w n : Nat) : Prop where
  entries : ∀ c ≤ w, columns.getD c 0 < 0x10000
  first : columns.getD 0 0 = 0
  leading : ∀ c < w, ¬ Flagged (columns.getD (c + 1) 0) →
    columns.getD (c + 1) 0 &&& OFFSET_MASK = (columns.getD c 0 &&& OFFSET_MASK) + 1
  trailing : ∀ c < w, Flagged (columns.getD (c + 1) 0) →
    ¬ Flagged (columns.getD c 0) ∧ columns.getD (c + 1) 0 &&& OFFSET_MASK = columns.getD c 0 &&& OFFSET_MASK
  sentinel : ¬ Flagged (columns.getD w 0) ∧ columns.getD w 0 &&& OFFSET_MASK = n

/-- The representation invariant of a row of `w` columns. -/
structure WellFormed (r : ScreenBufferRow) (w : Nat) : Prop where
  width_pos : 1 ≤ w
  width_le : w ≤ 0x7FFF
  columns_size : r.columns.length = w + 1
  attrs_size : r.attrs.length = w
  single_size : r.filled = false → r.singleWidthLayout = true → r.text.length = w
  table_ok : r.filled = false → r.singleWidthLayout = false → TableOk r.columns w r.text.length
  fill_attrs : r.filled = true → r.attrsUniform = true ∧ r.uniformAttr = r.fillAttr

theorem flagged_iff {e : Nat} (h : e < 0x10000) : Flagged e ↔ 0x8000 ≤ e := by
  unfold Flagged
  constructor
  · intro hf
    by_contra hlt
    exact hf (land_flag_of_lt (by omega))
  · intro hge
    have := land_flag_add (k := e - 0x8000) (by omega)
    rw [Nat.sub_add_cancel hge] at this
    omega

theorem follows_iff {e e' : Nat} (h : e < 0x10000) (h' : e' < 0x10000) : Follows 0x8000 e e' ↔
    (Flagged e' → ¬ Flagged e ∧ e' &&& OFFSET_MASK = e &&& OFFSET_MASK) ∧
      (¬ Flagged e' → e' &&& OFFSET_MASK = (e &&& OFFSET_MASK) + 1) := by
  simp only [Follows, flagged_iff h, flagged_iff h', land_mask]
  omega

theorem table_chain : ∀ (o : Nat) (gs : List (Glyph Char32)), o + gs.length < 0x8000 →
    List.IsChain (Follows 0x8000) (table 0x8000 o gs ++ [o + gs.length])
  | o, [], _ => by simp
  | o, g :: gs, h => by
    simp only [List.length_cons] at h
    have ih := table_chain (o + 1) gs (by omega)
    obtain ⟨es, he⟩ : ∃ es, table 0x8000 (o + 1) gs ++ [o + 1 + gs.length] = (o + 1) :: es := by
      cases gs with
      | nil => exact ⟨[], by simp⟩
      | cons g' gs => simp only [table]; split <;> exact ⟨_, rfl⟩
    rw [List.length_cons, show o + (gs.length + 1) = o + 1 + gs.length by omega, table, List.append_assoc, he]
    rw [he] at ih
    split
    · simp only [List.cons_append, List.nil_append, List.isChain_cons_cons]
      exact ⟨.inl ⟨by omega, rfl⟩, .inr ⟨by omega, by omega⟩, ih⟩
    · simp only [List.cons_append, List.nil_append, List.isChain_cons_cons]
      exact ⟨.inr ⟨by omega, by omega⟩, ih⟩

theorem getD_eq {l : List Nat} {i : Nat} (h : i < l.length) : l.getD i 0 = l[i] := by simp [h]

/-- The table of a strip satisfies the invariant. -/
theorem Explicit.tableOk (h : Explicit r w gs) : TableOk r.columns w r.text.length := by
  have hl := h.columns_length
  have hwl := h.width_le
  have hlen := h.length_le
  have htext : r.text.length = gs.length := by rw [h.text_eq, List.length_map]
  have hentries : ∀ c ≤ w, r.columns.getD c 0 < 0x10000 := by
    intro c hc
    rw [getD_eq (by omega)]
    have hlt : c < r.columns.length := by omega
    have hmem : r.columns[c] ∈ table 0x8000 0 gs ++ [gs.length] := h.columns_eq ▸ List.getElem_mem _
    rcases List.mem_append.mp hmem with hmem | hmem
    · obtain ⟨k, -, hk, hk'⟩ := mem_table 0x8000 hmem
      omega
    · have := List.mem_singleton.mp hmem
      omega
  have hchain : List.IsChain (Follows 0x8000) r.columns := by
    rw [h.columns_eq]
    simpa using table_chain 0 gs (by omega)
  have hfollows : ∀ c < w, Follows 0x8000 (r.columns.getD c 0) (r.columns.getD (c + 1) 0) := by
    intro c hc
    have := List.isChain_iff_getElem.mp hchain c (by omega)
    rwa [getD_eq (by omega), getD_eq (by omega)]
  refine ⟨hentries, ?_, fun c hc hf => ?_, fun c hc hf => ?_, ?_⟩
  · exact (show Explicit r w ([] ++ gs) by simpa using h).getD_boundary
  · exact ((follows_iff (hentries c (by omega)) (hentries (c + 1) (by omega))).mp (hfollows c hc)).2 hf
  · exact ((follows_iff (hentries c (by omega)) (hentries (c + 1) (by omega))).mp (hfollows c hc)).1 hf
  · have hlast := (show Explicit r w (gs ++ []) by simpa using h).getD_boundary
    rw [h.cols_eq] at hlast
    rw [hlast, flagged_iff (by omega), land_mask, htext]
    omega

/-- A row with a correct table shows a strip. -/
theorem TableOk.exists_explicit (h : TableOk r.columns w r.text.length) (hf : r.filled = false)
    (hs : r.singleWidthLayout = false) (hl : r.columns.length = w + 1) (hwl : w ≤ 0x7FFF) : ∃ gs, Explicit r w gs := by
  obtain ⟨e, es, hes⟩ : ∃ e es, r.columns = e :: es := by
    cases hc : r.columns with
    | nil => rw [hc] at hl; simp at hl
    | cons e es => exact ⟨e, es, rfl⟩
  have he : e = 0 := by have := h.first; rw [hes] at this; simpa using this
  have hchain : List.IsChain (Follows 0x8000) r.columns := by
    refine List.isChain_iff_getElem.mpr fun c hc => ?_
    have := (follows_iff (h.entries c (by omega)) (h.entries (c + 1) (by omega))).mpr
      ⟨h.trailing c (by omega), h.leading c (by omega)⟩
    rwa [getD_eq (by omega), getD_eq (by omega)] at this
  have hlast : r.columns.getLast (by rw [hes]; simp) = r.text.length := by
    obtain ⟨h1, h2⟩ := h.sentinel
    rw [flagged_iff (h.entries w (by omega))] at h1
    rw [land_mask, Nat.mod_eq_of_lt (by omega), getD_eq (by omega)] at h2
    rw [List.getLast_eq_getElem]
    simpa [hl] using h2
  have htext : r.text.length < 0x8000 := by
    obtain ⟨h1, h2⟩ := h.sentinel
    rw [← h2, land_mask]
    exact Nat.mod_lt _ (by decide)
  obtain ⟨gs, hgs, htab⟩ := exists_table (f := 0x8000) es 0 r.text (by decide) (by rw [← he, ← hes]; exact hchain)
    (by simpa [hes, he] using hlast) (by omega)
  rw [Nat.zero_add, ← he, ← hes] at htab
  rw [he] at htab
  refine ⟨gs, hf, hs, hwl, ?_, hgs.symm, htab⟩
  have := congrArg List.length htab
  rw [List.length_append, length_table, hl, List.length_singleton] at this
  omega

/-- The invariant, column by column, says that the row shows a strip. -/
theorem wellFormed_iff : WellFormed r w ↔ 1 ≤ w ∧ ∃ gs as, Shows r w gs as := by
  constructor
  · intro h
    refine ⟨h.width_pos, ?_⟩
    have hglyphs : ∃ gs, ShowsGlyphs r w gs := by
      cases hf : r.filled
      · cases hs : r.singleWidthLayout
        · obtain ⟨gs, hg⟩ := (h.table_ok hf hs).exists_explicit hf hs h.columns_size h.width_le
          exact ⟨gs, .explicit hg⟩
        · exact ⟨_, .single hf hs (h.single_size hf hs) rfl⟩
      · exact ⟨_, .filled hf rfl⟩
    obtain ⟨gs, hg⟩ := hglyphs
    exact ⟨gs, _, h.width_le, h.columns_size, h.attrs_size, hg, rfl, h.fill_attrs⟩
  · rintro ⟨hpos, gs, as, h⟩
    refine ⟨hpos, h.width_le, h.columns_length, h.attrs_length, fun hf hs => ?_, fun hf hs => ?_, h.fill⟩
    · cases h.glyphs with
      | filled h => simp [h] at hf
      | single _ _ ht => exact ht
      | explicit h => simp [h.notSingle] at hs
    · exact (h.explicit (by simp [hf, hs])).tableOk

/-! ## Sequences of row operations -/

/-- The conditions under which `write_measured_run` is called: what it asserts,
and that `widths` holds the columns of each character. Only a call for a whole
row of narrow glyphs leaves `widths` out. -/
structure RunArgs (r : ScreenBufferRow) (col : Nat) (text : List Char32) (widths : List Nat) (totalColumns : Nat)
    (allSingleWidth : Bool) : Prop where
  col_lt : col < r.width
  total_pos : 0 < totalColumns
  fits : col + totalColumns ≤ r.width
  widths_ok : ∀ v ∈ widths, v = 1 ∨ v = 2
  sized : allSingleWidth = false → text.length = widths.length ∧ totalColumns = widths.sum
  single : allSingleWidth = true → totalColumns = text.length ∧
    (col = 0 ∧ totalColumns = r.width ∨ widths = List.replicate text.length 1)

/-- The rows of `w` columns that operations on rows build, with any arguments.
Glyphs are single characters of one or two columns. -/
inductive Built : Nat → ScreenBufferRow → Prop
  | fresh {w : Nat} (hw : 1 ≤ w) (hw' : w ≤ 0x7FFF) (cp : Char32) (attr : TextAttribute) : Built w (resetFill {} w cp attr)
  | resetFill {v w : Nat} {r : ScreenBufferRow} (h : Built v r) (hw : 1 ≤ w) (hw' : w ≤ 0x7FFF) (cp : Char32)
      (attr : TextAttribute) : Built w (r.resetFill w cp attr)
  | writeGlyph {w : Nat} {r : ScreenBufferRow} (h : Built w r) (col : Nat) (cp : Char32) {n : Int}
      (hn : n = 1 ∨ n = 2) (attr : TextAttribute) :
      Built w (r.writeGlyph col [cp] n attr)
  | writeMeasuredRun {w : Nat} {r : ScreenBufferRow} (h : Built w r) {col : Nat} {text : List Char32}
      {widths : List Nat} {total : Nat} {all : Bool}
      (ha : RunArgs r col text widths total all) (attr : TextAttribute) :
      Built w (r.writeMeasuredRun col text widths total all attr)
  | tryWriteSingleWidthRun {w : Nat} {r : ScreenBufferRow} (h : Built w r) (col : Nat) (text : List Char32) (attr : TextAttribute) :
      Built w (r.tryWriteSingleWidthRun col text attr).2
  | clearCell {w : Nat} {r : ScreenBufferRow} (h : Built w r) (col : Nat) (attr : TextAttribute) : Built w (r.clearCell col attr)
  | fillAttrs {w : Nat} {r : ScreenBufferRow} (h : Built w r) (start endExcl : Nat) (attr : TextAttribute) :
      Built w (r.fillAttrs start endExcl attr)
  | setAttr {w : Nat} {r : ScreenBufferRow} (h : Built w r) (col : Nat) (attr : TextAttribute) : Built w (r.setAttr col attr)
  | copyFrom {v w : Nat} {r src : ScreenBufferRow} (h : Built w r) (hs : Built v src) (srcStart dstStart count : Nat) :
      Built w (r.copyFrom src srcStart dstStart count)
  | fromCharInfo {w : Nat} {r : ScreenBufferRow} (h : Built w r) (src : List CharInfo) (dstCol : Nat) :
      Built w (r.fromCharInfo src dstCol)

/-- The row shows some strip of `w` columns. -/
def ShowsSome (w : Nat) (r : ScreenBufferRow) : Prop := ∃ gs as, Shows r w gs as

theorem ShowsSome.writeGlyph (h : ShowsSome w r) (col : Nat) (cp : Char32) {n : Int} (hn : n = 1 ∨ n = 2)
    (a : TextAttribute) : ShowsSome w (r.writeGlyph col [cp] n a) := by
  obtain ⟨gs, as, h⟩ := h
  have hw := h.width_eq
  rcases Nat.lt_or_ge col w with hlt | hge
  · have hnarrow : ShowsSome w (r.writeGlyph col [cp] 1 a) :=
      ⟨_, _, by simpa using h.writeGlyph (c := col) ⟨cp, false⟩ (by simp; omega) a⟩
    rcases hn with rfl | rfl
    · exact hnarrow
    · rcases Nat.lt_or_ge (col + 1) w with hlt2 | hge2
      · exact ⟨_, _, by simpa using h.writeGlyph (c := col) ⟨cp, true⟩ (by simp; omega) a⟩
      · rwa [writeGlyph_clamp (by omega)]
  · rw [writeGlyph_of_ge (by omega)]
    exact ⟨gs, as, h⟩

theorem ShowsSome.setAttr (h : ShowsSome w r) (col : Nat) (a : TextAttribute) : ShowsSome w (r.setAttr col a) := by
  obtain ⟨gs, as, h⟩ := h
  exact ⟨gs, _, (h.setAttr col a).1⟩

theorem ShowsSome.copyFrom {sw : Nat} (h : ShowsSome w r) (hsrc : ShowsSome sw src) (s d n : Nat) :
    ShowsSome w (r.copyFrom src s d n) := by
  obtain ⟨sgs, sas, hsrc⟩ := hsrc
  refine List.foldlRecOn _ _ h fun x hx i hi => ?_
  have hi := List.mem_takeWhile_imp hi
  simp only [Bool.and_eq_true, decide_eq_true_eq, hsrc.width_eq] at hi
  have hwl := hsrc.width_le
  unfold copyColumn
  rw [u16_of_lt (show s + i < 0x10000 by omega)]
  dsimp only
  split
  · exact hx
  · rename_i ht
    obtain ⟨pre, ⟨a, wide⟩, post, rfl, hp⟩ := exists_glyph_at (show s + i < cols sgs by rw [hsrc.cols_eq]; exact hi.2)
    rcases hp with hp | ⟨hw, hp⟩
    · rw [hp, hsrc.glyphAt_lead, hsrc.glyphWidth_lead]
      exact hx.writeGlyph _ _ (by cases wide <;> simp) _
    · simp only at hw
      subst hw
      rw [hp, hsrc.isTrailing_trail] at ht
      simp at ht

theorem ShowsSome.importCell (h : ShowsSome w r) (dstCol : Nat) (cell : CharInfo × Nat) :
    ShowsSome w (importCell dstCol r cell) := by
  obtain ⟨src, i⟩ := cell
  unfold ScreenBufferRow.importCell
  dsimp only
  split
  · exact h
  · generalize (if 0xD800 ≤ src.wchar ∧ src.wchar ≤ 0xDBFF then 0xFFFD else if src.wchar = 0 then 0x20 else src.wchar) = cp
    split
    · exact (h.writeGlyph _ cp (.inr rfl) _).setAttr _ _
    · split
      · exact h.setAttr _ _
      · split
        · exact (h.writeGlyph _ cp (.inr rfl) _).setAttr _ _
        · rw [← apply_ite (fun x => [x])]
          exact h.writeGlyph _ _ (.inl rfl) _

theorem RunArgs.shows {col total : Nat} {text : List Char32} {widths : List Nat} {all : Bool}
    (ha : RunArgs r col text widths total all) (h : Shows r w gs as) (a : TextAttribute) :
    ShowsSome w (r.writeMeasuredRun col text widths total all a) := by
  have hw := h.width_eq
  have hfit := ha.fits
  have hpos := ha.total_pos
  cases all
  · obtain ⟨hl, rfl⟩ := ha.sized rfl
    obtain ⟨h1, h2⟩ := measured_cols hl ha.widths_ok
    have hne : measured text widths ≠ [] := by
      intro hn
      rw [hn] at h2
      simp only [List.map_nil] at h2
      simp [← h2] at hpos
    have := h.writeMeasuredRun (c := col) widths false
      (show Passes false widths (measured text widths) by simp [Passes, h2]) (by simp) hne (by rw [← sum_map_cols, h2]; omega) a
    rw [h1, ← sum_map_cols, h2] at this
    exact ⟨_, _, this⟩
  · obtain ⟨rfl, hs⟩ := ha.single rfl
    have hchar : (text.map (Glyph.mk · false)).map Glyph.char = text := by simp [Function.comp_def]
    have hcols : (text.map (Glyph.mk · false)).map Glyph.cols = List.replicate text.length 1 := by
      simp [Function.comp_def]
    have := h.writeMeasuredRun (c := col) widths true
      (show Passes true widths (text.map (Glyph.mk · false)) by simp [Passes])
      (fun _ => by rw [hcols, cols_map_single, ← hw]; exact hs)
      (by simpa using List.length_pos_iff.mp hpos) (by rw [cols_map_single]; omega) a
    rw [hchar, cols_map_single] at this
    exact ⟨_, _, this⟩

theorem Built.showsSome (h : Built w r) : 1 ≤ w ∧ ShowsSome w r := by
  induction h with
  | fresh hw hw' cp attr => exact ⟨hw, _, _, Shows.resetFill _ hw' cp attr⟩
  | resetFill _ hw hw' cp attr => exact ⟨hw, _, _, Shows.resetFill _ hw' cp attr⟩
  | writeGlyph _ col cp hn attr ih => exact ⟨ih.1, ih.2.writeGlyph col cp hn attr⟩
  | writeMeasuredRun _ ha attr ih =>
    obtain ⟨hpos, gs, as, hs⟩ := ih
    exact ⟨hpos, ha.shows hs attr⟩
  | @tryWriteSingleWidthRun w r _ col text attr ih =>
    obtain ⟨hpos, gs, as, hs⟩ := ih
    obtain ⟨h1, h2, h3⟩ := hs.trySingleWidthRun col text attr
    refine ⟨hpos, ?_⟩
    cases ht : (r.tryWriteSingleWidthRun col text attr).1
    · exact ⟨_, _, h1 ht⟩
    · by_cases hne : text = []
      · exact ⟨_, _, h2 ht hne⟩
      · exact ⟨_, _, (h3 ht hne).2⟩
  | clearCell _ col attr ih => exact ⟨ih.1, ih.2.writeGlyph col 0x20 (.inl rfl) attr⟩
  | fillAttrs _ s e attr ih =>
    obtain ⟨hpos, gs, as, hs⟩ := ih
    exact ⟨hpos, gs, _, hs.fillAttrs s e attr⟩
  | setAttr _ col attr ih => exact ⟨ih.1, ih.2.setAttr col attr⟩
  | copyFrom _ _ s d n ih ih' => exact ⟨ih.1, ih.2.copyFrom ih'.2 s d n⟩
  | fromCharInfo _ src dstCol ih =>
    obtain ⟨hpos, gs, as, hs⟩ := ih
    refine ⟨hpos, List.foldlRecOn _ _ ?_ fun x hx p _ => hx.importCell dstCol p⟩
    exact ⟨gs, as, hs.materializeFilled⟩

/-- No offset reaches the trailing flag, every index into `_text` is in range,
and every column shows one character. -/
theorem Shows.reads (h : Shows r w gs as) :
    (r.filled = false → r.text.length ≤ w ∧ ∀ c < w, r.colOffset c < r.text.length) ∧
      (∀ c ≤ w, r.colOffset c < 0x8000) ∧ ∀ c < w, ∃ cp, r.glyphAt c = [cp] := by
  have hwl := h.width_le
  have hcols := h.cols_eq
  have hglyphs := length_le_cols gs
  have htext : r.filled = false → r.text.length = gs.length := by
    intro hf
    cases h.glyphs with
    | filled h => simp [h] at hf
    | single _ _ _ h => rw [h]; simp
    | explicit h => rw [h.text_eq]; simp
  have hoff : ∀ c < w, r.colOffset c < gs.length ∧ ∃ cp, r.glyphAt c = [cp] := by
    intro c hc
    obtain ⟨pre, ⟨a, wide⟩, post, rfl, hp⟩ := exists_glyph_at (show c < cols gs by omega)
    rcases hp with rfl | ⟨hw, rfl⟩
    · exact ⟨by rw [h.colOffset_boundary]; simp, _, h.glyphAt_lead⟩
    · simp only at hw
      subst hw
      exact ⟨by rw [h.explicit_of_wide.colOffset_inside]; simp, _, h.glyphAt_trail⟩
  have hend : r.colOffset w = gs.length := by
    have := (show Shows r w (gs ++ []) as by simpa using h).colOffset_boundary
    rwa [hcols] at this
  refine ⟨fun hf => ⟨by rw [htext hf]; omega, fun c hc => by rw [htext hf]; exact (hoff c hc).1⟩, fun c hc => ?_,
    fun c hc => (hoff c hc).2⟩
  rcases Nat.lt_or_eq_of_le hc with hlt | rfl
  · have := (hoff c hlt).1
    omega
  · omega

/-- Every row that row operations build is well formed for the width it was
filled with, and reading it stays in bounds. -/
theorem built_wellFormed (h : Built w r) : WellFormed r w ∧
    (r.filled = false → r.text.length ≤ w ∧ ∀ c < w, r.colOffset c < r.text.length) ∧
    (∀ c ≤ w, r.colOffset c < 0x8000) ∧ ∀ c < w, ∃ cp, r.glyphAt c = [cp] := by
  obtain ⟨hpos, gs, as, hs⟩ := h.showsSome
  exact ⟨wellFormed_iff.mpr ⟨hpos, gs, as, hs⟩, hs.reads⟩

/-- A wide glyph over the halves of two others, in a row of five columns. -/
theorem built_wellFormed_row : WellFormed
    ((((resetFill {} 5 0x20 {}).writeGlyph 0 [0x4E2D] 2 {}).writeGlyph 2 [0x6587] 2 {}).writeGlyph 1 [0x5B57] 2 {}) 5 :=
  (built_wellFormed (.writeGlyph (.writeGlyph (.writeGlyph (.fresh (by decide) (by decide) 0x20 {}) 0 0x4E2D
    (.inr rfl) {}) 2 0x6587 (.inr rfl) {}) 1 0x5B57 (.inr rfl) {})).1

end Corehost.ScreenBufferRow
