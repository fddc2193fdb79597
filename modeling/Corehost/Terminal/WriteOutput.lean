import Corehost.Row.ImportFrame
import Corehost.Session.TransferBounds
import Corehost.Terminal.Mirror

/-!
# Rectangles of cells on the display

The model of what WriteConsoleOutput (`api_write_console_output`,
`api_handlers.hpp`) sends: each row of the rectangle that it has written, with a
column more on either side.

* `screen_apiWriteConsoleOutput`: a request writes nothing, or its rows;
* `ImportedRows`: what the rows leave alone in the buffer;
* `unpainted_of_imported`: what a display that showed the buffer before the rows
  were written is still to be sent;
* `receive_importText`: a display that has received it shows the buffer.
-/

namespace Corehost

open Lib
open ScreenBufferRow (Cell Beside KeptOrCut Imported imported_fromCharInfo)

/-! ## The model -/

/-- The handler ends before it writes a cell. -/
def RegionRequest.WritesNothing (q : RegionRequest) (sb : ScreenBuffer) : Prop :=
  let orig := q.charRegion.rect
  let clipped := sb.clampRect orig
  q.inputSize.toNat < MSG_HEADER + REGION_MSG ∨ (orig.left > orig.right ∨ orig.top > orig.bottom) ∨
    q.inputSize.toNat - MSG_HEADER - REGION_MSG < regionBytes orig ∨ clipped.left > clipped.right ∨ clipped.top > clipped.bottom

instance (q : RegionRequest) (sb : ScreenBuffer) : Decidable (q.WritesNothing sb) :=
  inferInstanceAs (Decidable (_ ∨ _ ∨ _ ∨ _ ∨ _))

/-- What is sent for the rectangle `clipped` when the viewport is the whole buffer. -/
def ScreenBuffer.importText (s : ScreenBuffer) (clipped : SmallRect) : List Char32 :=
  vtMsgSend .saveCursor .none ++
    ((regionRows clipped).foldl (s.repaintRow (i16 (clipped.left - 1)) (i16 (clipped.right + 1))) ([], 0xFFFF)).1 ++
    vtMsgSend .restoreCursor .none

/-! ## The rows that are written -/

variable {cps : CodePages} {cp : UInt32} {sb : ScreenBuffer} {m : Memory} {q : RegionRequest}

theorem screen_apiWriteConsoleOutput (cps : CodePages) (cp : UInt32) (sb : ScreenBuffer) (m : Memory) (q : RegionRequest) :
    (apiWriteConsoleOutput cps cp sb m q).screen = if q.WritesNothing sb then sb else
      (regionRows (sb.clampRect q.charRegion.rect)).foldl (fun s y => s.modifyRow y fun r =>
        r.fromCharInfo (importRow cps cp m q.unicode q.charRegion.rect (sb.clampRect q.charRegion.rect) y)
          (u16 (sb.clampRect q.charRegion.rect).left.toNat)) sb := by
  by_cases hq : q.WritesNothing sb
  · rw [if_pos hq]
    unfold RegionRequest.WritesNothing at hq
    unfold apiWriteConsoleOutput
    dsimp only at hq ⊢
    split_ifs
    all_goals first | rfl | omega
  · rw [if_neg hq]
    simp only [RegionRequest.WritesNothing, not_or] at hq
    obtain ⟨hsize, hrect, hdata, hclipped⟩ := hq
    unfold apiWriteConsoleOutput
    dsimp only
    rw [if_neg hsize, if_neg (not_or.mpr hrect), if_neg hdata, if_neg (not_or.mpr hclipped)]

namespace ScreenBuffer

open Display (Complete)

variable {cw : Char32 → Int} {s s' : ScreenBuffer} {clipped : SmallRect} {x y : Int}

/-- A loop that changes rows, each of them once. -/
theorem modifyRows_spec (f : Int → ScreenBufferRow → ScreenBufferRow) : ∀ (ys : List Int) {s : ScreenBuffer}, s.Sized → ys.Nodup →
    (∀ y ∈ ys, 0 ≤ y ∧ y < s.size.y) → (∀ y r, r.ShowsSome s.size.x.toNat → (f y r).ShowsSome s.size.x.toNat) →
    let s' := ys.foldl (fun s y => s.modifyRow y (f y)) s
    s'.Sized ∧ s'.size = s.size ∧ s'.viewport = s.viewport ∧
      ∀ i : Int, 0 ≤ i → i < s.size.y → s'.row i = if i ∈ ys then f i (s.row i) else s.row i
  | [], s, h, _, _, _ => ⟨h, rfl, rfl, fun i _ _ => (if_neg List.not_mem_nil).symm⟩
  | y :: ys, s, h, hnodup, hys, hf => by
    obtain ⟨hy, hnodup⟩ := List.nodup_cons.mp hnodup
    obtain ⟨hy0, hyh⟩ := hys y List.mem_cons_self
    obtain ⟨hsized, hsize, hviewport, hrows⟩ := modifyRows_spec f ys (h.modifyRow y (hf y)) hnodup
      (fun y' hy' => hys y' (List.mem_cons_of_mem _ hy')) hf
    refine ⟨hsized, hsize, hviewport, fun i hi0 hi => (hrows i hi0 hi).trans ?_⟩
    obtain ⟨k, rfl⟩ := Int.eq_ofNat_of_zero_le hi0
    obtain ⟨n, rfl⟩ := Int.eq_ofNat_of_zero_le hy0
    have hrow := h.row_modifyRow (f n) (hf n) (y := n) (i := k) hyh hi
    by_cases heq : k = n
    · subst heq
      rw [if_neg hy, if_pos List.mem_cons_self, hrow, if_pos rfl]
    · have hne : (k : Int) ≠ n := by omega
      rw [hrow, if_neg heq]
      simp only [List.mem_cons, hne, false_or]

theorem nodup_regionRows (r : SmallRect) : (regionRows r).Nodup :=
  List.nodup_range.map fun a b (hab : r.top + (a : Int) = r.top + b) => by omega

/-- The rows of the rectangle are written, as far as it is in the buffer. -/
structure ImportedRows (s s' : ScreenBuffer) (clipped : SmallRect) : Prop where
  edges : (0 ≤ clipped.left ∧ clipped.left ≤ clipped.right ∧ clipped.right < s.size.x) ∧
    0 ≤ clipped.top ∧ clipped.top ≤ clipped.bottom ∧ clipped.bottom < s.size.y
  sized : s'.Sized
  size : s'.size = s.size
  viewport : s'.viewport = s.viewport
  other : ∀ y, 0 ≤ y → y < s.size.y → y ∉ regionRows clipped → s'.row y = s.row y
  row : ∀ y ∈ regionRows clipped,
    Imported (s.row y) (s'.row y) s.size.x.toNat clipped.left.toNat (regionColumns clipped)

variable (cps cp m) in
theorem importedRows (h : sb.Sized) (hq : ¬ q.WritesNothing sb) :
    sb.ImportedRows (apiWriteConsoleOutput cps cp sb m q).screen (sb.clampRect q.charRegion.rect) := by
  have hw := h.width
  have hh := h.height
  have hedges : (0 ≤ (sb.clampRect q.charRegion.rect).left ∧ (sb.clampRect q.charRegion.rect).right < sb.size.x) ∧
      0 ≤ (sb.clampRect q.charRegion.rect).top ∧ (sb.clampRect q.charRegion.rect).bottom < sb.size.y := by
    simp only [clampRect]
    split_ifs <;> omega
  have hclipped : (sb.clampRect q.charRegion.rect).left ≤ (sb.clampRect q.charRegion.rect).right ∧
      (sb.clampRect q.charRegion.rect).top ≤ (sb.clampRect q.charRegion.rect).bottom := by
    unfold RegionRequest.WritesNothing at hq
    dsimp only at hq
    omega
  rw [screen_apiWriteConsoleOutput, if_neg hq]
  generalize sb.clampRect q.charRegion.rect = clipped at hedges hclipped
  have hrange : ∀ y ∈ regionRows clipped, 0 ≤ y ∧ y < sb.size.y := fun y hy => by
    have := RegionRequest.mem_regionRows.mp hy
    omega
  have hlength (y : Int) : (importRow cps cp m q.unicode q.charRegion.rect clipped y).length ≤ regionColumns clipped := by
    unfold importRow Memory.cells
    dsimp only
    split_ifs
    · rw [List.length_map, List.length_range]
    · exact List.length_take_le ..
  have himport (y : Int) (r : ScreenBufferRow) (hr : r.ShowsSome sb.size.x.toNat) := imported_fromCharInfo hr (by omega)
    (hlength y) (u16 clipped.left.toNat)
  obtain ⟨hsized, hsize, hviewport, hrows⟩ := modifyRows_spec (fun y r =>
    r.fromCharInfo (importRow cps cp m q.unicode q.charRegion.rect clipped y) (u16 clipped.left.toNat)) (regionRows clipped) h
    (nodup_regionRows clipped) hrange fun y r hr => (himport y r hr).shows
  refine ⟨by omega, hsized, hsize, hviewport, fun y h0 hy hnot => ?_, fun y hy => ?_⟩
  · rw [hrows y h0 hy, if_neg hnot]
  · obtain ⟨h0, hlt⟩ := hrange y hy
    have hrow := himport y (sb.row y) (showsSome_row h hlt)
    rw [hrows y h0 hlt, if_pos hy]
    rwa [u16_of_lt (by omega)] at hrow ⊢

/-- A cell beside the columns that are written. -/
theorem ImportedRows.kept (hi : s.ImportedRows s' clipped) (hrow : y ∈ regionRows clipped) (hx : 0 ≤ x ∧ x < s.size.x)
    (hbeside : x < clipped.left - 1 ∨ clipped.right + 1 < x) :
    s'.cellAt x y = s.cellAt x y ∨
      (x + 2 = clipped.left ∧ (s.cellAt x y).cols = 2 ∨ x = clipped.right + 2 ∧ (s.cellAt x y).cols = 0) ∧
        s'.cellAt x y = (s.cellAt x y).cut := by
  obtain ⟨⟨hleft, hle, hright⟩, -⟩ := hi.edges
  have hn : regionColumns clipped = (clipped.right - clipped.left + 1).toNat := rfl
  have hkept := (hi.row y hrow).beside x.toNat (by omega) (by unfold Beside; omega)
  refine hkept.imp_right fun ⟨hcut, heq⟩ => ⟨?_, heq⟩
  unfold cellAt
  omega

/-! ## The text on the display -/

/-- The two halves of a glyph that begins one column behind the rectangle have the same colors. -/
def HalvesMatch (s : ScreenBuffer) (clipped : SmallRect) : Prop :=
  ∀ y ∈ regionRows clipped, clipped.right + 2 < s.size.x → (s.cellAt (clipped.right + 2) y).cols = 0 →
    colorsOf (s.cellAt (clipped.right + 2) y).attr.legacy = colorsOf (s.cellAt (clipped.right + 1) y).attr.legacy

theorem shownCell_congr (hsize : s'.size = s.size) (hrow : s'.row y = s.row y) (x : Int) : s'.shownCell y x = s.shownCell y x := by
  unfold shownCell paintedCell leadColumn cellAt
  rw [hsize, hrow]

theorem shownCell_cut (h : s'.Sized) (hx : 0 ≤ x ∧ x < s'.size.x) (hy : 0 ≤ y ∧ y < s'.size.y) {cell : Cell}
    (hcell : s'.cellAt x y = cell.cut) : s'.shownCell y x = ⟨[0x20], 1, ⟨colorsOf cell.attr.legacy⟩⟩ := by
  have hlead : s'.leadColumn y 0 x = x := if_neg fun h => by
    rw [hcell] at h
    exact absurd h.1 Nat.one_ne_zero
  rw [shownCell_eq h hx hy, hlead, hcell]
  rfl

/-- What a display that showed the buffer before shows: what is still to be sent are the columns of the rectangle,
one more on either side, and halves of glyphs that are cut there. -/
theorem unpainted_of_imported (h : s.Sized) (hi : s.ImportedRows s' clipped) (hmatch : s.HalvesMatch clipped)
    (hx : 0 ≤ x ∧ x < s.size.x) (hy : 0 ≤ y ∧ y < s.size.y) :
    s'.Unpainted (clipped.left - 1) (clipped.right + 1) (regionRows clipped) x y (s.shownCell y x) := by
  have hx' : 0 ≤ x ∧ x < s'.size.x := by rwa [hi.size]
  have hy' : 0 ≤ y ∧ y < s'.size.y := by rwa [hi.size]
  have hedges := hi.edges
  by_cases hrow : y ∈ regionRows clipped
  swap
  · exact .inl (shownCell_congr hi.size (hi.other y hy.1 hy.2 hrow) x).symm
  by_cases harea : clipped.left - 1 ≤ x ∧ x ≤ clipped.right + 1
  · exact .inr ⟨hrow, .inl harea⟩
  rcases hi.kept hrow hx (by omega) with hkept | ⟨hhalf, hcut⟩
  · by_cases hbehind : (s.cellAt x y).cols = 0 ∧ x = clipped.right + 2
    · exact .inr ⟨hrow, .inr (.inl ⟨by omega, by rw [hkept]; exact hbehind.1⟩)⟩
    -- the glyph begins beside the columns, too
    left
    have hcolumn : s'.leadColumn y 0 x = s.leadColumn y 0 x := by unfold leadColumn; rw [hkept]
    have hlead : s'.cellAt (s.leadColumn y 0 x) y = s.cellAt (s.leadColumn y 0 x) y := by
      by_cases htrail : (s.cellAt x y).cols = 0 ∧ x ≠ 0
      · have hback := (cols_cases h (x := x - 1) ⟨by omega, by omega⟩ hy.2).2.2
        rw [Int.sub_add_cancel] at hback
        have h2 := hback hx.2 htrail.1
        rw [leadColumn, if_pos htrail]
        refine (hi.kept hrow (x := x - 1) ⟨by omega, by omega⟩ (by omega)).resolve_right fun hcut => ?_
        have := hcut.1
        omega
      · rwa [leadColumn, if_neg htrail]
    rw [shownCell_eq h hx hy, shownCell_eq hi.sized hx' hy', hcolumn, hlead, hkept]
  · refine .inr ⟨hrow, .inr (.inr ⟨?_, ?_⟩)⟩
    · rw [shownCell_eq h hx hy]
      dsimp only
      omega
    · rw [shownCell_cut hi.sized hx' hy' hcut, shownCell_eq h hx hy, Cell.cut]
      dsimp only
      by_cases hlead : (s.cellAt x y).cols = 0 ∧ x ≠ 0
      · have hright : x = clipped.right + 2 := by omega
        subst hright
        rw [leadColumn, if_pos hlead, hmatch y hrow hx.2 hlead.1]
        ring_nf
      · rw [leadColumn, if_neg hlead]

theorem unused_of_imported (hi : s.ImportedRows s' clipped) (hunused : s.Unused 0xFFFF) : s'.Unused 0xFFFF := by
  intro x y hx0 hx hy0 hy
  rw [hi.size] at hx hy
  by_cases hrow : y ∈ regionRows clipped
  · rcases (hi.row y hrow).given x.toNat (by omega) with ⟨word, heq⟩ | ⟨c, hc, heq⟩
    · change ((s'.row y).cellAt x.toNat).attr.legacy ≠ 0xFFFF
      rw [heq]
      intro hword
      have hbits : word &&& ~~~COMMON_LVB_SBCSDBCS &&& COMMON_LVB_SBCSDBCS = 0xFFFF &&& COMMON_LVB_SBCSDBCS :=
        congrArg (· &&& COMMON_LVB_SBCSDBCS) hword
      rw [UInt16.and_assoc] at hbits
      rw [show ~~~COMMON_LVB_SBCSDBCS &&& COMMON_LVB_SBCSDBCS = 0 by decide, UInt16.and_zero] at hbits
      exact absurd hbits (by decide)
    · have hold := hunused c y (by omega) (by omega) hy0 hy
      change ((s'.row y).cellAt x.toNat).attr.legacy ≠ 0xFFFF
      rwa [heq]
  · have hold := hunused x y hx0 hx hy0 hy
    unfold cellAt at hold ⊢
    rwa [hi.other y hy0 hy hrow]

/-- The display shows the buffer behind the text, and its cursor and pen are where they were. -/
theorem receive_importText (h : s.Sized) (hp : s.PrintableView cw (ScrollRequest.buffer s)) (hunused : s.Unused 0xFFFF)
    (hedges : 0 ≤ clipped.left ∧ clipped.left ≤ clipped.right ∧ clipped.right < s.size.x) (t : Display)
    (ht : s.ShowsBy (s.Unpainted (clipped.left - 1) (clipped.right + 1) (regionRows clipped)) t) :
    s.Mirrors (t.receive cw (s.importText clipped)) ∧ (t.receive cw (s.importText clipped)).row = t.row ∧
      (t.receive cw (s.importText clipped)).col = t.col ∧ (t.receive cw (s.importText clipped)).pen = t.pen := by
  have hwidth := h.width
  obtain ⟨hsave, hrestore⟩ := PartialScroll.sends_cursor
  obtain ⟨hcomplete, hsaved⟩ := Display.receive_sends cw hsave t
  have hrows := @repaints_rows cw s (clipped.left - 1) (clipped.right + 1) h hp (by omega) (regionRows clipped) 0xFFFF
  rw [importText, i16_of_range (by omega) (by omega), i16_of_range (by omega) (by omega), List.append_assoc,
    Display.receive_append hcomplete, hsaved, Display.receive_append hrows.complete,
    (Display.receive_sends cw hrestore _).2]
  obtain ⟨hframe, -, hshows⟩ := hrows.shows (t := t.execute cw (.saveCursor, .none)) ⟨ht.width, ht.height, ht.lines⟩ (.inr hunused)
  generalize (t.execute cw (.saveCursor, .none)).receive cw _ = t' at hframe hshows
  have hback : t'.saved = (t.row, t.col, t.pen) := hframe.saved
  have hmirrors := hshows.mono fun x y cell _ _ _ _ hcell => hcell.resolve_right fun hcell => List.not_mem_nil hcell.1
  exact ⟨⟨hmirrors.width, hmirrors.height, hmirrors.lines⟩, congrArg Prod.fst hback, congrArg (·.2.1) hback, congrArg (·.2.2) hback⟩

end ScreenBuffer

end Corehost
