import Corehost.Row.Refine
import Corehost.Screen.Model

/-!
# The text that fits in a row

* `measureRow_glyphs`: the characters that `write_text_row` takes, as glyphs,
  end in front of the right edge of the viewport;
* `measureRow_stop`: the next one does not fit there.
-/

namespace Corehost.ScreenBuffer

open Lib Lib.Strip

theorem widthColumns_cases (cw : Char32 → Int) (ch : Char32) : widthColumns cw ch = 1 ∨ widthColumns cw ch = 2 := by
  have h1 : 1 ≤ widthColumns cw ch := le_clamp (by decide)
  have h2 : widthColumns cw ch ≤ 2 := clamp_le (by decide)
  omega

/-- A character as the glyph it becomes on the screen. -/
def glyphOf (cw : Char32 → Int) (ch : Char32) : Glyph Char32 := ⟨ch, widthColumns cw ch == 2⟩

theorem cols_glyphOf (cw : Char32 → Int) (ch : Char32) : ((glyphOf cw ch).cols : Int) = widthColumns cw ch := by
  rcases widthColumns_cases cw ch with h | h <;> simp [glyphOf, Glyph.cols, h]

theorem measureRow_glyphs (cw : Char32 → Int) {x right : Int} (hx : 0 ≤ x) (hr : right < 0x7FFF) :
    ∀ (text : List Char32) (n : Nat), x + n ≤ right + 1 →
      measureRow cw x right n text =
          ((text.take (measureRow cw x right n text).length).map (glyphOf cw)).map Glyph.cols ∧
        x + n + cols ((text.take (measureRow cw x right n text).length).map (glyphOf cw)) ≤ right + 1
  | [], n, hn => by simpa [measureRow] using hn
  | ch :: text, n, hn => by
    have hw := widthColumns_cases cw ch
    have hg := cols_glyphOf cw ch
    simp only [measureRow]
    split
    · simpa using hn
    · rename_i hfit
      have hu : u16 (n + (widthColumns cw ch).toNat) = n + (widthColumns cw ch).toNat := u16_of_lt (by omega)
      obtain ⟨h1, h2⟩ := measureRow_glyphs cw hx hr text (n + (widthColumns cw ch).toNat) (by omega)
      rw [hu]
      refine ⟨?_, ?_⟩
      · rw [List.length_cons, List.take_succ_cons, List.map_cons, List.map_cons, ← h1]
        congr 1
        omega
      · rw [List.length_cons, List.take_succ_cons, List.map_cons, cols_cons]
        push_cast
        omega

/-- The first character that is not taken does not fit. -/
theorem measureRow_stop (cw : Char32 → Int) {x right : Int} (hx : 0 ≤ x) (hr : right < 0x7FFF) :
    ∀ (text : List Char32) (n : Nat), x + n ≤ right + 1 → ∀ ch rest,
      text.drop (measureRow cw x right n text).length = ch :: rest →
      right < x + n + cols ((text.take (measureRow cw x right n text).length).map (glyphOf cw)) + widthColumns cw ch - 1
  | [], n, hn, _, _, h => by simp [measureRow] at h
  | c :: text, n, hn, ch, rest, h => by
    have hw := widthColumns_cases cw c
    have hg := cols_glyphOf cw c
    simp only [measureRow] at h ⊢
    split at h
    · rename_i hfit
      obtain ⟨rfl, -⟩ := List.cons_eq_cons.mp h
      rw [if_pos hfit]
      simpa using hfit
    · rename_i hfit
      have hu : u16 (n + (widthColumns cw c).toNat) = n + (widthColumns cw c).toNat := u16_of_lt (by omega)
      rw [if_neg hfit]
      rw [hu] at h ⊢
      have hrest := measureRow_stop cw hx hr text (n + (widthColumns cw c).toNat) (by omega) ch rest h
      rw [List.length_cons, List.take_succ_cons, List.map_cons, cols_cons]
      push_cast at hrest ⊢
      omega

end Corehost.ScreenBuffer
