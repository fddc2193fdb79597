import Corehost.Screen.Model

/-!
# The frame of a buffer

What fills and moves cells leaves the size and the viewport of the buffer.

* `sameFrame_scroll`: every path of `scroll` does.
-/

namespace Corehost

open Lib

namespace ScreenBuffer

variable {s t u : ScreenBuffer}

/-- The same size and viewport. -/
structure SameFrame (s t : ScreenBuffer) : Prop where
  size : t.size = s.size
  viewport : t.viewport = s.viewport

theorem SameFrame.refl (s : ScreenBuffer) : SameFrame s s := ⟨rfl, rfl⟩

theorem SameFrame.symm (h : SameFrame s t) : SameFrame t s := ⟨h.size.symm, h.viewport.symm⟩

theorem SameFrame.trans (h : SameFrame s t) (h' : SameFrame t u) : SameFrame s u :=
  ⟨h'.size.trans h.size, h'.viewport.trans h.viewport⟩

/-- The rows of the first buffer do not matter. -/
theorem SameFrame.of_eq (h : SameFrame u t) (hsize : u.size = s.size) (hview : u.viewport = s.viewport) : SameFrame s t :=
  ⟨h.size.trans hsize, h.viewport.trans hview⟩

theorem sameFrame_foldl {α : Type} {f : ScreenBuffer → α → ScreenBuffer} (hf : ∀ s a, SameFrame s (f s a)) (s : ScreenBuffer)
    (as : List α) : SameFrame s (as.foldl f s) :=
  List.foldlRecOn (motive := SameFrame s) as f (.refl s) fun t h a _ => h.trans (hf t a)

theorem sameFrame_modifyRow (s : ScreenBuffer) (y : Int) (f : ScreenBufferRow → ScreenBufferRow) :
    SameFrame s (s.modifyRow y f) := ⟨rfl, rfl⟩

theorem sameFrame_writeTextRow (s : ScreenBuffer) (cw : Char32 → Int) (cursor : Coord) (text : List Char32) (attr : UInt16) :
    SameFrame s (s.writeTextRow cw cursor text attr).2.2 := by
  unfold writeTextRow
  dsimp only
  split_ifs
  · exact .refl s
  · exact .refl s
  · exact sameFrame_modifyRow ..

theorem sameFrame_linearizeRows (s : ScreenBuffer) : SameFrame s s.linearizeRows := by
  unfold linearizeRows
  split <;> exact ⟨rfl, rfl⟩

theorem sameFrame_fillRows (s : ScreenBuffer) (first count : Nat) (cp : Char32) (attr : UInt16) :
    SameFrame s (s.fillRows first count cp attr) := sameFrame_foldl (fun _ _ => sameFrame_modifyRow ..) s _

theorem sameFrame_scrollRing (s : ScreenBuffer) (dy : Int) (cp : Char32) (attr : UInt16) :
    SameFrame s (s.scrollRing dy cp attr) := by
  unfold scrollRing
  dsimp only
  split
  · exact .of_eq (sameFrame_fillRows ..) rfl rfl
  · split <;> exact .of_eq (sameFrame_fillRows ..) rfl rfl

theorem sameFrame_scrollRows (s : ScreenBuffer) (top bottom : Nat) (dy : Int) (cp : Char32) (attr : UInt16) :
    SameFrame s (s.scrollRows top bottom dy cp attr) := by
  unfold scrollRows
  dsimp only
  split <;> exact .of_eq (sameFrame_fillRows ..) rfl rfl

theorem sameFrame_fillRect (s : ScreenBuffer) (r : SmallRect) (cp : Char32) (attr : UInt16) :
    SameFrame s (s.fillRect r cp attr) := by
  unfold fillRect
  dsimp only
  split
  · exact .refl s
  · exact sameFrame_foldl (fun _ _ => sameFrame_modifyRow ..) s _

theorem sameFrame_scrollRect (s : ScreenBuffer) (sr clip : SmallRect) (dx dy : Int) (cp : Char32) (attr : UInt16) :
    SameFrame s (s.scrollRect sr clip dx dy cp attr) := by
  have hfill (t : ScreenBuffer) (fr : SmallRect) : SameFrame t (if fr.isValid then t.fillRect fr cp attr else t) := by
    split
    · exact sameFrame_fillRect t fr cp attr
    · exact .refl t
  unfold scrollRect
  dsimp only
  split
  · refine .of_eq ((hfill _ _).trans (sameFrame_foldl ?_ _ _)) rfl rfl
    exact fun _ _ => ⟨rfl, rfl⟩
  · exact .of_eq (hfill _ _) rfl rfl

theorem sameFrame_scroll (s : ScreenBuffer) (sr clip : SmallRect) (useClip : Bool) (dest : Coord) (cp : Char32)
    (attr : UInt16) : SameFrame s (s.scroll sr clip useClip dest cp attr) := by
  unfold scroll
  dsimp only
  split_ifs
  · exact .refl s
  · exact .refl s
  · exact sameFrame_scrollRing ..
  · exact (sameFrame_linearizeRows s).trans (sameFrame_scrollRows ..)
  · exact (sameFrame_linearizeRows s).trans (sameFrame_scrollRect ..)

end ScreenBuffer

end Corehost
