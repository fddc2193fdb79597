import Corehost.Row.Refine

/-!
# Operations and what a row shows

A row can show the same strip in several representations.

* `SameRow w r r'`: both rows show the same strip of `w` columns;
* `Acts w f`: what the operation `f` makes of a row depends only on what the
  row shows;
* `acts_writeGlyph`, `acts_copyFrom`, …: the operations of a row act on strips.
-/

namespace Corehost.ScreenBufferRow

open Lib Lib.Strip

variable {w sw : Nat} {r r' src src' : ScreenBufferRow} {f g : ScreenBufferRow → ScreenBufferRow}

def SameRow (w : Nat) (r r' : ScreenBufferRow) : Prop := ∃ gs as, r.Shows w gs as ∧ r'.Shows w gs as

theorem SameRow.refl (h : r.ShowsSome w) : SameRow w r r := by
  obtain ⟨gs, as, h⟩ := h
  exact ⟨gs, as, h, h⟩

theorem SameRow.visible_eq (h : SameRow w r r') : r.visible = r'.visible := by
  obtain ⟨gs, as, h, h'⟩ := h
  rw [h.visible_eq, h'.visible_eq]

theorem SameRow.symm (h : SameRow w r r') : SameRow w r' r := by
  obtain ⟨gs, as, h, h'⟩ := h
  exact ⟨gs, as, h', h⟩

theorem SameRow.showsSome (h : SameRow w r r') : r.ShowsSome w := by
  obtain ⟨gs, as, h, -⟩ := h
  exact ⟨gs, as, h⟩

/-- What the operation makes of a row depends only on what the row shows. -/
def Acts (w : Nat) (f : ScreenBufferRow → ScreenBufferRow) : Prop :=
  ∀ gs as, (∃ r : ScreenBufferRow, r.Shows w gs as) → ∃ gs' as', ∀ r : ScreenBufferRow, r.Shows w gs as → (f r).Shows w gs' as'

theorem Acts.showsSome (hf : Acts w f) (h : r.ShowsSome w) : (f r).ShowsSome w := by
  obtain ⟨gs, as, h⟩ := h
  obtain ⟨gs', as', hf⟩ := hf gs as ⟨r, h⟩
  exact ⟨gs', as', hf r h⟩

theorem Acts.sameRow (hf : Acts w f) (h : SameRow w r r') : SameRow w (f r) (f r') := by
  obtain ⟨gs, as, h, h'⟩ := h
  obtain ⟨gs', as', hf⟩ := hf gs as ⟨r, h⟩
  exact ⟨gs', as', hf r h, hf r' h'⟩

theorem acts_id : Acts w id := fun gs as _ => ⟨gs, as, fun _ h => h⟩

theorem Acts.comp (hg : Acts w g) (hf : Acts w f) : Acts w fun r => g (f r) := by
  intro gs as ⟨r, h⟩
  obtain ⟨gs', as', hf⟩ := hf gs as ⟨r, h⟩
  obtain ⟨gs'', as'', hg⟩ := hg gs' as' ⟨f r, hf r h⟩
  exact ⟨gs'', as'', fun r h => hg _ (hf r h)⟩

theorem Acts.foldl {β : Type*} {f : ScreenBufferRow → β → ScreenBufferRow} : ∀ (l : List β),
    (∀ b ∈ l, Acts w fun r => f r b) → Acts w fun r => l.foldl f r
  | [], _ => acts_id
  | b :: l, h => (Acts.foldl l fun x hx => h x (List.mem_cons_of_mem _ hx)).comp (h b List.mem_cons_self)

/-! ## The operations -/

theorem acts_writeGlyph (col : Nat) (cp : Char32) {n : Int} (hn : n = 1 ∨ n = 2) (a : TextAttribute) :
    Acts w fun r => r.writeGlyph col [cp] n a := by
  have hfits (g : Glyph Char32) (hc : col + g.cols ≤ w) : Acts w fun r => r.writeGlyph col [g.char] g.cols a :=
    fun gs as _ => ⟨_, _, fun r h => h.writeGlyph g hc a⟩
  rcases Nat.lt_or_ge col w with hlt | hge
  · have hone : Acts w fun r => r.writeGlyph col [cp] 1 a := by simpa using hfits ⟨cp, false⟩ (by simp; omega)
    rcases hn with rfl | rfl
    · exact hone
    · rcases Nat.lt_or_ge (col + 1) w with hlt2 | hge2
      · simpa using hfits ⟨cp, true⟩ (by simp; omega)
      · intro gs as h
        obtain ⟨gs', as', hone⟩ := hone gs as h
        refine ⟨gs', as', fun r h => ?_⟩
        change (r.writeGlyph col [cp] 2 a).Shows w gs' as'
        rw [writeGlyph_clamp (by rw [h.width_eq]; omega)]
        exact hone r h
  · refine fun gs as _ => ⟨gs, as, fun r h => ?_⟩
    change (r.writeGlyph col [cp] n a).Shows w gs as
    rw [writeGlyph_of_ge (by rw [h.width_eq]; omega)]
    exact h

theorem acts_setAttr (col : Nat) (a : TextAttribute) : Acts w fun r => r.setAttr col a :=
  fun gs _ _ => ⟨gs, _, fun _ h => (h.setAttr col a).1⟩

theorem acts_writeTextRun {col : Nat} {new : List (Glyph Char32)} (hne : new ≠ []) (hc : col + cols new ≤ w)
    (a : TextAttribute) : Acts w fun r => r.writeTextRun col (new.map Glyph.char) (new.map Glyph.cols) a :=
  fun _ _ _ => ⟨_, _, fun _ h => h.writeTextRun hne hc a⟩

/-! ## Copying columns -/

/-- The reads of a column that the row has. -/
theorem SameRow.reads (h : SameRow w src src') {c : Nat} (hc : c < w) :
    src.isTrailing c = src'.isTrailing c ∧ src.glyphAt c = src'.glyphAt c ∧ src.glyphWidth c = src'.glyphWidth c ∧
      src.attrAt c = src'.attrAt c ∧ (src.isTrailing c = false → ∃ cp, src.glyphAt c = [cp] ∧
        (src.glyphWidth c = 1 ∨ src.glyphWidth c = 2)) := by
  obtain ⟨gs, as, h, h'⟩ := h
  obtain ⟨pre, ⟨a, wide⟩, post, rfl, hp⟩ := exists_glyph_at (show c < cols gs by rw [h.cols_eq]; exact hc)
  rw [h.attrAt_eq hc, h'.attrAt_eq hc]
  rcases hp with rfl | ⟨hw, rfl⟩
  · have hlead : pre ++ ⟨a, wide⟩ :: post = pre ++ (⟨a, wide⟩ :: post) := rfl
    rw [h.glyphAt_lead, h'.glyphAt_lead, h.glyphWidth_lead, h'.glyphWidth_lead]
    rw [h.isTrailing_boundary, h'.isTrailing_boundary]
    exact ⟨rfl, rfl, rfl, rfl, fun _ => ⟨a, rfl, by cases wide <;> simp⟩⟩
  · simp only at hw
    subst hw
    rw [h.glyphAt_trail, h'.glyphAt_trail, h.glyphWidth_trail, h'.glyphWidth_trail, h.isTrailing_trail,
      h'.isTrailing_trail]
    exact ⟨rfl, rfl, rfl, rfl, by simp⟩

theorem SameRow.width_eq (h : SameRow w r r') : r.width = w ∧ r'.width = w := by
  obtain ⟨gs, as, h, h'⟩ := h
  exact ⟨h.width_eq, h'.width_eq⟩

theorem SameRow.le (h : SameRow w r r') : w ≤ 0x7FFF := by
  obtain ⟨gs, as, h, -⟩ := h
  exact h.width_le

/-- Only what the source shows matters. -/
theorem SameRow.copyFrom_eq (h : SameRow sw src src') (r : ScreenBufferRow) (s d n : Nat) :
    r.copyFrom src s d n = r.copyFrom src' s d n := by
  obtain ⟨hw, hw'⟩ := h.width_eq
  have hle := h.le
  rw [copyFrom, copyFrom, hw, hw']
  refine List.foldl_ext _ _ _ fun x i hi => ?_
  have hi := List.mem_takeWhile_imp hi
  simp only [Bool.and_eq_true, decide_eq_true_eq] at hi
  obtain ⟨h1, h2, h3, h4, -⟩ := h.reads hi.2
  unfold copyColumn
  rw [u16_of_lt (show s + i < 0x10000 by omega)]
  dsimp only
  rw [h1, h2, h3, h4]

theorem acts_copyFrom (h : src.ShowsSome sw) (s d n : Nat) : Acts w fun r => r.copyFrom src s d n := by
  have hsrc := SameRow.refl h
  have hle := hsrc.le
  have hcol : Acts w fun r => ((List.range n).takeWhile fun i => d + i < w && s + i < src.width).foldl
      (copyColumn src s d) r := by
    refine Acts.foldl _ fun i hi => ?_
    have hi := List.mem_takeWhile_imp hi
    rw [hsrc.width_eq.1] at hi
    simp only [Bool.and_eq_true, decide_eq_true_eq] at hi
    obtain ⟨-, -, -, -, hread⟩ := hsrc.reads hi.2
    unfold copyColumn
    rw [u16_of_lt (show s + i < 0x10000 by omega)]
    dsimp only
    cases ht : src.isTrailing (s + i)
    · obtain ⟨cp, h1, h2⟩ := hread ht
      rw [h1]
      exact acts_writeGlyph _ cp (by omega) _
    · exact acts_id
  intro gs as hex
  obtain ⟨gs', as', hcol⟩ := hcol gs as hex
  refine ⟨gs', as', fun r hr => ?_⟩
  have hw := hr.width_eq
  have hgoal := hcol r hr
  beta_reduce at hgoal
  rw [← hw] at hgoal
  simpa only [copyFrom, hw] using hgoal

end Corehost.ScreenBufferRow
