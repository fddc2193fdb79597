import Corehost.Row.CharInfo

/-!
# What an import leaves alone

`from_char_info` (`screen_buffer_row.hpp`) writes glyphs into a row. Outside the
columns of its cells, and one more on either side, it changes nothing but the
halves of the glyphs that it cuts.
-/

namespace Corehost.ScreenBufferRow

open Lib

variable {r x : ScreenBufferRow} {w dst i c d : Nat}

/-- The attribute comes from a word, or from the row. -/
def Given (x : ScreenBufferRow) (w : Nat) (attr : TextAttribute) : Prop :=
  (∃ word, attr = .ofWord word) ∨ ∃ c, c < w ∧ attr = (x.cellAt c).attr

/-- What one cell of the import does. -/
inductive ImportCase (x : ScreenBufferRow) (w dst i : Nat) (x' : ScreenBufferRow) : Prop
  | skip (h : x' = x)
  | wide (c : Nat) (hc : c + 1 < w) (hcol : c = dst + i ∨ c + 1 = dst ∧ i = 0) (cp : Char32) (attr : TextAttribute)
      (hattr : x.Given w attr) (d : Nat) (hd : d = c ∨ d = c + 1) (attr' : TextAttribute) (hattr' : x.Given w attr')
      (h : x' = (x.writeGlyph c [cp] 2 attr).setAttr d attr')
  | recolor (attr : TextAttribute) (hattr : x.Given w attr) (h : x' = x.setAttr (dst + i) attr)
  | narrow (cp : Char32) (attr : TextAttribute) (hattr : x.Given w attr) (h : x' = x.writeGlyph (dst + i) [cp] 1 attr)

theorem importCell_cases (hx : x.ShowsSome w) (hw : w ≤ 0x7FFF) (hi : dst + i < w) (src : CharInfo) :
    ImportCase x w dst i (importCell dst x (src, i)) := by
  have hword : x.Given w (.ofWord src.attributes) := .inl ⟨_, rfl⟩
  have hcol : u16 (dst + i) = dst + i := u16_of_lt (by omega)
  unfold importCell
  dsimp only
  rw [hcol, hx.width_eq]
  generalize (if 0xD800 ≤ src.wchar ∧ src.wchar ≤ 0xDBFF then 0xFFFD else if src.wchar = 0 then 0x20 else src.wchar) = cp
  split_ifs with hskip hlead htrail hfirst hspace
  · exact .skip rfl
  · rw [u16_of_lt (show dst + i + 1 < 0x10000 by omega)]
    exact .wide (dst + i) hlead.2 (.inl rfl) cp _ hword _ (.inr rfl) _ (.inr ⟨dst + i + 1, hlead.2, rfl⟩) rfl
  · exact .recolor _ hword rfl
  · have hi0 : i = 0 := by
      by_contra hne
      exact htrail ⟨hfirst.1, hne⟩
    rw [u16_of_lt (show dst + i - 1 < 0x10000 by omega)]
    refine .wide (dst + i - 1) (by omega) (.inr ⟨by omega, hi0⟩) cp _ (.inr ⟨dst + i - 1, by omega, rfl⟩) (dst + i) (.inr (by omega)) _
      hword rfl
  · exact .narrow 0x20 _ hword rfl
  · exact .narrow cp _ hword rfl

/-- A cell that is not in the columns a glyph is written to. -/
theorem cellAt_writeWide_beside (hx : x.ShowsSome w) (hc : c + 1 < w) (cp : Char32) (attr : TextAttribute) (hd : d < w) :
    (x.writeGlyph c [cp] 2 attr).cellAt d =
      if d = c then ⟨[cp], 2, attr⟩
      else if d = c + 1 then ⟨[cp], 0, attr⟩
      else if d + 1 = c ∧ (x.cellAt d).cols = 2 ∨ d = c + 2 ∧ (x.cellAt d).cols = 0 then (x.cellAt d).cut
      else x.cellAt d := by
  rw [cellAt_of_visible hx.width_eq (hx.writeGlyph c cp (.inr rfl) attr).width_eq (visible_writeWide hx hc cp attr) hd,
    overwriteCell]
  simp only [List.length_cons, List.length_nil, ne_eq, List.cons_ne_nil, not_false_eq_true, true_and]
  by_cases h0 : d = c
  · subst h0
    simp
  · by_cases h1 : d = c + 1
    · subst h1
      simp
    · rw [if_neg (by omega), if_neg h0, if_neg h1]
      split_ifs <;> first | rfl | omega

/-- Columns that an import reaches neither with a cell nor with the second half of a glyph. -/
def Beside (dst n d : Nat) : Prop := d + 1 < dst ∨ dst + n < d

/-- The cell is the one of the row, or what is left of a glyph that was cut. -/
def KeptOrCut (r : ScreenBufferRow) (dst n d : Nat) (cell : Cell) : Prop :=
  cell = r.cellAt d ∨
    (d + 2 = dst ∧ (r.cellAt d).cols = 2 ∨ d = dst + n + 1 ∧ (r.cellAt d).cols = 0) ∧ cell = (r.cellAt d).cut

variable {x' : ScreenBufferRow} {n : Nat}

theorem ImportCase.beside (h : ImportCase x w dst i x') (hx : x.ShowsSome w) (hi : i < n) (hin : dst + i < w) (hd : d < w)
    (hbeside : Beside dst n d) : x.KeptOrCut dst n d (x'.cellAt d) := by
  unfold Beside at hbeside
  cases h with
  | skip h => exact .inl (by rw [h])
  | wide c hc hcol cp attr hattr e he attr' hattr' h =>
    have hshows := hx.writeGlyph c cp (.inr rfl) attr
    rw [h, hshows.cellAt_setAttr e attr' hd, if_neg (by omega), cellAt_writeWide_beside hx hc cp attr hd, if_neg (by omega),
      if_neg (by omega)]
    split_ifs with hcut
    · exact .inr ⟨by omega, rfl⟩
    · exact .inl rfl
  | recolor attr hattr h =>
    rw [h, hx.cellAt_setAttr (dst + i) attr hd, if_neg (by omega)]
    exact .inl rfl
  | narrow cp attr hattr h =>
    rw [h, cellAt_writeNarrow hx hin cp attr hd, if_neg (by omega), if_neg (by omega)]
    exact .inl rfl

theorem ImportCase.given (h : ImportCase x w dst i x') (hx : x.ShowsSome w) (hin : dst + i < w) (hd : d < w) :
    x.Given w (x'.cellAt d).attr := by
  have hkept : x.Given w (x.cellAt d).attr := .inr ⟨d, hd, rfl⟩
  cases h with
  | skip h => rwa [h]
  | wide c hc hcol cp attr hattr e he attr' hattr' h =>
    have hshows := hx.writeGlyph c cp (.inr rfl) attr
    rw [h, hshows.cellAt_setAttr e attr' hd, cellAt_writeWide_beside hx hc cp attr hd]
    split_ifs <;> assumption
  | recolor attr hattr h =>
    rw [h, hx.cellAt_setAttr (dst + i) attr hd]
    split_ifs <;> assumption
  | narrow cp attr hattr h =>
    rw [h, cellAt_writeNarrow hx hin cp attr hd]
    split_ifs <;> assumption

/-- A row behind some cells of an import of `n` cells. -/
structure Imported (r x : ScreenBufferRow) (w dst n : Nat) : Prop where
  shows : x.ShowsSome w
  beside : ∀ d < w, Beside dst n d → r.KeptOrCut dst n d (x.cellAt d)
  given : ∀ d < w, r.Given w (x.cellAt d).attr

theorem Imported.importCell (h : Imported r x w dst n) (hw : w ≤ 0x7FFF) (hi : i < n) (hin : dst + i < w) (src : CharInfo) :
    Imported r (importCell dst x (src, i)) w dst n := by
  have hcase := importCell_cases h.shows hw hin src
  refine ⟨h.shows.importCell dst (src, i), fun d hd hbeside => ?_, fun d hd => ?_⟩
  · have hkept := hcase.beside h.shows hi hin hd hbeside
    rcases h.beside d hd hbeside with heq | ⟨hcut, heq⟩
    · unfold KeptOrCut at hkept ⊢
      rwa [heq] at hkept
    · -- a glyph is cut once only
      rcases hkept with hsame | ⟨hagain, -⟩
      · exact .inr ⟨hcut, hsame.trans heq⟩
      · rw [heq] at hagain
        simp [Cell.cut] at hagain
  · rcases hcase.given h.shows hin hd with hword | ⟨c, hc, heq⟩
    · exact .inl hword
    · rw [heq]
      exact h.given c hc

/-- An import of `n` cells at most. -/
theorem imported_fromCharInfo (hr : r.ShowsSome w) (hw : w ≤ 0x7FFF) {src : List CharInfo} (hn : src.length ≤ n) (dst : Nat) :
    Imported r (r.fromCharInfo src dst) w dst n := by
  obtain ⟨gs, as, hs⟩ := hr
  have hm := hs.materializeFilled
  have hsame : ∀ d < w, r.materializeFilled.cellAt d = r.cellAt d := fun d hd =>
    Option.some_inj.mp ((hm.cellAt_eq hd).trans (hs.cellAt_eq hd).symm)
  refine List.foldlRecOn (motive := fun x => Imported r x w dst n) _ _
    ⟨⟨gs, as, hm⟩, fun d hd _ => .inl (hsame d hd), fun d hd => .inr ⟨d, hd, by rw [hsame d hd]⟩⟩ fun x hx p hp => ?_
  have hfit : dst + p.2 < w := by
    have := List.mem_takeWhile_imp hp
    rwa [hm.width_eq, decide_eq_true_eq] at this
  obtain ⟨cell, i⟩ := p
  have hi := (List.mem_zipIdx' ((List.takeWhile_prefix _).subset hp)).1
  exact hx.importCell hw (by omega) hfit cell

end Corehost.ScreenBufferRow
