import Corehost.Vt.SameState
import Corehost.Vt.TabTable

/-!
# Output with and without the cells

`consume_write_console_vt_message` has two ways to follow a write: it writes the
cells and the cursor (`emit_vt`), or only the cursor, when the bytes have gone
to the terminal as they were.

* `lineFeed_same_iff`: when the two line feeds agree;
* `text_same`: a text that both ways treat alike;
* `consumeMessage_same`: one message;
* `cursor_only_agrees`: all messages of a write.
-/

namespace Corehost

open Lib Lib.Strip
open ScreenBuffer (SameFrame TextRowWriteResult measureRow glyphOf cols_glyphOf widthColumns_cases)

namespace Console

variable {c c' : Console} {cw : Char32 → Int}

/-! ## The line feed -/

/-- The scrolling region. -/
def region (c : Console) : SmallRect := c.state.scrollRegion c.sb.viewport.rect

/-- The row of the cursor after `apply_terminal_line_feed`. -/
def nextRow (c : Console) : Int :=
  let y := c.state.position.y
  let bottom := c.sb.viewport.rect.bottom
  if c.state.scrollRegionTop = 1 ∧ c.state.scrollRegionBottom ≤ 0 then if y = bottom then bottom else min bottom (i16 (y + 1))
  else if y = c.region.bottom ∧ y ≥ c.region.top then c.region.bottom
  else min bottom (i16 (y + 1))

theorem same_lineFeed (c : Console) : Same (c.moveTo ⟨c.sb.viewport.rect.left, c.nextRow⟩) c.applyTerminalLineFeed := by
  unfold applyTerminalLineFeed nextRow region
  dsimp only
  split_ifs
  · exact Same.moveTo (.cells (ScreenBuffer.sameFrame_scroll ..)) _
  · exact .refl _
  · exact Same.moveTo (.cells (ScreenBuffer.sameFrame_scroll ..)) _
  · exact .refl _

/-- The row of the cursor after `apply_terminal_line_feed_cursor_only`. -/
def nextRowCursorOnly (c : Console) : Int :=
  if c.state.position.y ≥ c.sb.viewport.rect.bottom then c.sb.viewport.rect.bottom else i16 (c.state.position.y + 1)

/-- The two line feeds agree when they go to the same row. -/
theorem lineFeed_same_iff_row (h : Same c c') :
    Same c.applyTerminalLineFeed c'.applyTerminalLineFeedCursorOnly ↔ c.nextRow = c.nextRowCursorOnly := by
  have hright : c'.applyTerminalLineFeedCursorOnly = c'.moveTo ⟨c.sb.viewport.rect.left, c.nextRowCursorOnly⟩ := by
    unfold applyTerminalLineFeedCursorOnly nextRowCursorOnly
    rw [h.sb.viewport, h.state]
  rw [hright]
  constructor
  · intro hsame
    have hstate := ((same_lineFeed c).trans hsame).state
    exact (congrArg (·.position.y) hstate).symm
  · intro hrow
    rw [← hrow]
    exact (same_lineFeed c).symm.trans (h.moveTo _)

/-- The cursor is not in the last row of a region that ends above the viewport. -/
def LineFeedAgrees (c : Console) : Prop :=
  (c.state.position.y = c.region.bottom → c.region.bottom = c.sb.viewport.rect.bottom) ∧ IsShort (c.state.position.y + 1)

instance (c : Console) : Decidable c.LineFeedAgrees := inferInstanceAs (Decidable (_ ∧ _))

theorem lineFeed_same (h : Same c c') (hc : c.LineFeedAgrees) : Same c.applyTerminalLineFeed c'.applyTerminalLineFeedCursorOnly := by
  obtain ⟨hbottom, hshort⟩ := hc
  rw [lineFeed_same_iff_row h]
  unfold nextRow nextRowCursorOnly
  dsimp only
  rw [i16_of_range hshort.1 hshort.2]
  split_ifs <;> omega

theorem region_bounds (hin : c.sb.viewport.Inside c.sb.size) (hsize : c.sb.size.y ≤ 0x7FFF) :
    c.sb.viewport.rect.top ≤ c.region.top ∧ c.region.top ≤ c.region.bottom ∧ c.region.bottom ≤ c.sb.viewport.rect.bottom := by
  have h0 := hin.top
  have htb := hin.topBottom
  have hb := hin.bottom
  unfold region ConsoleState.scrollRegion
  dsimp only
  have hheight : i16 (c.sb.viewport.rect.bottom - c.sb.viewport.rect.top + 1) =
      c.sb.viewport.rect.bottom - c.sb.viewport.rect.top + 1 := i16_of_range (by omega) (by omega)
  rw [hheight]
  generalize hn : c.sb.viewport.rect.bottom - c.sb.viewport.rect.top + 1 = n
  have htop : 1 ≤ clamp c.state.scrollRegionTop 1 n := le_clamp (by omega)
  have hbottom : 1 ≤ clamp c.state.scrollRegionBottom 1 n ∧ clamp c.state.scrollRegionBottom 1 n ≤ n :=
    ⟨le_clamp (by omega), clamp_le (by omega)⟩
  have htop' : clamp c.state.scrollRegionTop 1 n ≤ n := clamp_le (by omega)
  split_ifs
  all_goals first
    | omega
    | (dsimp only; rw [i16_of_range, i16_of_range] <;> omega)

/-- There is no other place where the two line feeds agree. -/
theorem lineFeed_same_iff (h : Same c c') (hin : c.sb.viewport.Inside c.sb.size) (hsize : c.sb.size.y ≤ 0x7FFF)
    (hy : IsShort c.state.position.y) :
    Same c.applyTerminalLineFeed c'.applyTerminalLineFeedCursorOnly ↔ c.LineFeedAgrees := by
  refine ⟨fun hsame => ?_, lineFeed_same h⟩
  have hrow := (lineFeed_same_iff_row h).mp hsame
  have hbounds := region_bounds hin hsize
  have h0 := hin.top
  have hb := hin.bottom
  have htb := hin.topBottom
  unfold IsShort at hy
  unfold nextRow nextRowCursorOnly at hrow
  dsimp only at hrow
  have hwhole : c.state.scrollRegionTop = 1 ∧ c.state.scrollRegionBottom ≤ 0 → c.region = c.sb.viewport.rect := fun hw => by
    unfold region ConsoleState.scrollRegion
    exact if_pos hw
  by_cases hlast : c.state.position.y = 0x7FFF
  · -- the row below is computed in a `SHORT`
    have hwrap : i16 (c.state.position.y + 1) = -0x8000 := by rw [hlast]; decide
    rw [hwrap] at hrow
    exfalso
    split_ifs at hrow <;> omega
  · rw [i16_of_range (by omega) (by omega)] at hrow
    refine ⟨fun heq => ?_, by unfold IsShort; omega⟩
    by_cases hw : c.state.scrollRegionTop = 1 ∧ c.state.scrollRegionBottom ≤ 0
    · rw [hwhole hw]
    · rw [if_neg hw, if_pos ⟨heq, by omega⟩] at hrow
      split_ifs at hrow <;> omega

/-! ## Text -/

/-- How often a text from column `x` on leaves its row. -/
def rowsLeft (cw : Char32 → Int) (view : SmallRect) : Int → List Char32 → Nat
  | _, [] => 0
  | x, ch :: rest =>
    let w := widthColumns cw ch
    if x + w - 1 > view.right then rowsLeft cw view (view.left + w) rest + 1 else rowsLeft cw view (x + w) rest

/-- No line feed of the next `n` is in the last row of a region that ends above the viewport. -/
def RowsAgree (c : Console) (n : Nat) : Prop :=
  c.region.bottom = c.sb.viewport.rect.bottom ∨ c.region.bottom < c.state.position.y ∨
    c.state.position.y + n ≤ c.region.bottom

instance (c : Console) (n : Nat) : Decidable (c.RowsAgree n) := inferInstanceAs (Decidable (_ ∨ _))

variable (cw) in
/-- What fits in the row does not leave it. -/
theorem rowsLeft_take {view : SmallRect} : ∀ (k : Nat) (text : List Char32) (x : Int),
    x + cols ((text.take k).map (glyphOf cw)) ≤ view.right + 1 →
    rowsLeft cw view x text = rowsLeft cw view (x + cols ((text.take k).map (glyphOf cw))) (text.drop k)
  | 0, text, x, _ => by simp
  | _ + 1, [], x, _ => by simp [rowsLeft]
  | k + 1, ch :: rest, x, hx => by
    have hg := cols_glyphOf cw ch
    rw [List.take_succ_cons, List.map_cons, cols_cons] at hx ⊢
    push_cast at hx ⊢
    rw [hg] at hx ⊢
    rw [rowsLeft, if_neg (by omega), rowsLeft_take k rest (x + widthColumns cw ch) (by omega), List.drop_succ_cons,
      Int.add_assoc]

/-- A character that does not fit starts the next row. -/
theorem rowsLeft_cons {view : SmallRect} {ch : Char32} {rest : List Char32} {x : Int}
    (hx : view.right < x + widthColumns cw ch - 1) (hfit : view.left + widthColumns cw ch - 1 ≤ view.right) :
    rowsLeft cw view x (ch :: rest) = rowsLeft cw view view.left (ch :: rest) + 1 := by
  rw [rowsLeft, if_pos hx, rowsLeft, if_neg (by omega)]

theorem Same.rowsAgree {n : Nat} (h : Same c c') : c'.RowsAgree n ↔ c.RowsAgree n := by
  unfold RowsAgree region
  rw [h.state, h.sb.viewport]

theorem Same.inView (h : Same c c') : c'.InView ↔ c.InView := by
  constructor
  · exact fun ⟨h1, h2, h3, h4⟩ => by
      rw [h.sb.viewport, h.state] at h1 h2 h3 h4
      exact ⟨h1, h2, h3, h4⟩
  · exact fun ⟨h1, h2, h3, h4⟩ => by
      constructor <;> rw [h.sb.viewport, h.state] <;> assumption

theorem Same.lineFeedAgrees (h : Same c c') : c'.LineFeedAgrees ↔ c.LineFeedAgrees := by
  unfold LineFeedAgrees region
  rw [h.state, h.sb.viewport]

/-- The line feeds that are still to come after one of them. -/
theorem RowsAgree.next {n : Nat} (h : c.RowsAgree (n + 1)) (hin : c.sb.viewport.Inside c.sb.size) (hsize : c.sb.size.y ≤ 0x7FFF)
    (htop : c.sb.viewport.rect.top ≤ c.state.position.y) (hbottom : c.state.position.y ≤ c.sb.viewport.rect.bottom) :
    c.LineFeedAgrees ∧ c.applyTerminalLineFeed.RowsAgree n ∧ c.applyTerminalLineFeed.InView := by
  have h0 := hin.top
  have hb := hin.bottom
  have hnext : i16 (c.state.position.y + 1) = c.state.position.y + 1 := i16_of_range (by omega) (by omega)
  have hagree : c.LineFeedAgrees := by
    unfold RowsAgree at h
    unfold LineFeedAgrees IsShort
    omega
  have hrow := (lineFeed_same_iff_row (.refl c)).mp (lineFeed_same (.refl c) hagree)
  have hbounds : c.sb.viewport.rect.top ≤ c.nextRowCursorOnly ∧ c.nextRowCursorOnly ≤ c.sb.viewport.rect.bottom := by
    unfold nextRowCursorOnly
    rw [hnext]
    split_ifs <;> omega
  refine ⟨hagree, (same_lineFeed c).rowsAgree.mpr ?_, (same_lineFeed c).inView.mpr ?_⟩
  · rw [hrow]
    unfold RowsAgree at h
    change c.region.bottom = c.sb.viewport.rect.bottom ∨ c.region.bottom < c.nextRowCursorOnly ∨
      c.nextRowCursorOnly + n ≤ c.region.bottom
    unfold nextRowCursorOnly
    rw [hnext]
    split_ifs <;> omega
  · rw [hrow]
    exact ⟨Int.le_refl _, hin.leftRight, hbounds.1, hbounds.2⟩

/-- The turn of the loop without cells, for what `write_text_row` takes. -/
theorem cursorOnly_turn {view : SmallRect} {text : List Char32} {k : Nat} {x : Int} {end_ : Bool} {sb : ScreenBuffer}
    (h : Same c c') (hv : c.InView) (hview : c.sb.viewport.rect = view) (hne : text ≠ []) (hk : k ≠ 0)
    (hwrite : c.sb.writeTextRow cw c.state.position text c.state.defaultAttributes =
      (⟨k, end_⟩, ⟨x, c.state.position.y⟩, sb)) (m : Nat) :
    cursorOnlyLoop cw view (m + 1) text c' =
      if text.drop k ≠ [] then cursorOnlyLoop cw view m (text.drop k)
        (c'.moveTo ⟨x, c.state.position.y⟩).applyTerminalLineFeedCursorOnly
      else if x > view.right then (c'.moveTo ⟨view.right, c.state.position.y⟩).setWrap true
      else c'.moveTo ⟨x, c.state.position.y⟩ := by
  obtain ⟨ch, rest, rfl⟩ := List.exists_cons_of_ne_nil hne
  unfold ScreenBuffer.writeTextRow at hwrite
  rw [if_neg hne] at hwrite
  dsimp only at hwrite
  rw [clamp_of_mem hv.left hv.right, clamp_of_mem hv.top hv.bottom, hview] at hwrite
  rw [cursorOnlyLoop, h.state]
  generalize measureRow cw c.state.position.x view.right 0 (ch :: rest) = widths at *
  obtain ⟨hres, hrest⟩ := Prod.mk.inj hwrite
  obtain ⟨hpos, -⟩ := Prod.mk.inj hrest
  have hlen : widths.length = k := congrArg TextRowWriteResult.consumed hres
  rw [hlen, if_neg hk] at hpos
  have hx : i16 (c.state.position.x + u16 widths.sum) = x := congrArg Coord.x hpos
  rw [hlen, hx]
  dsimp only
  rw [if_neg hk]
  rfl

/-- Both loops write the same rows. -/
theorem loop_same (cw : Char32 → Int) {view : SmallRect} : ∀ (n m : Nat) {text : List Char32} {c c' : Console}, Same c c' →
    c.InView → c.sb.viewport.Inside c.sb.size → c.sb.size.x ≤ 0x7FFF → c.sb.size.y ≤ 0x7FFF → c.sb.viewport.rect = view →
    Fits cw view text → (∀ ch ∈ text.head?, c.state.position.x + widthColumns cw ch - 1 ≤ view.right) →
    c.RowsAgree (rowsLeft cw view c.state.position.x text) → text.length ≤ n → text.length ≤ m →
    ∃ r, applyTerminalTextLoop cw view n text c = some ([], r) ∧ r.Same (cursorOnlyLoop cw view m text c')
  | n, 0, [], c, c', h, _, _, _, _, _, _, _, _, _, _ => ⟨c, loop_nil n, h⟩
  | n, _ + 1, [], c, c', h, _, _, _, _, _, _, _, _, _, _ => ⟨c, loop_nil n, h⟩
  | 0, _, _ :: _, _, _, _, _, _, _, _, _, _, _, _, hn, _ => absurd hn (Nat.not_succ_le_zero _)
  | _, 0, _ :: _, _, _, _, _, _, _, _, _, _, _, _, _, hm => absurd hm (Nat.not_succ_le_zero _)
  | n + 1, m + 1, ch :: rest, c, c', h, hv, hin, hx, hy, hview, hfits, hfirst, hrows, hn, hm => by
    obtain ⟨k, hk, hxk, hstop, hwrite⟩ := writeTextRow_inView cw hv hin hx (List.cons_ne_nil ch rest) c.state.defaultAttributes
    rw [hview] at hxk hstop
    generalize hxe : c.state.position.x + (cols (((ch :: rest).take k).map (glyphOf cw)) : Int) = x at *
    have hk0 : k ≠ 0 := by
      rintro rfl
      have := hstop ch rest rfl
      have := hfirst ch rfl
      rw [List.take_zero, List.map_nil, cols_nil] at hxe
      omega
    have hturn := cursorOnly_turn h hv hview (List.cons_ne_nil ch rest) hk0 hwrite m
    rw [hturn, applyTerminalTextLoop, hwrite]
    dsimp only
    generalize hsb : (if k = 0 then c.sb else c.sb.modifyRow _ _) = sb at *
    have hframe : SameFrame c.sb sb := by
      rw [← hsb, if_neg hk0]
      exact ScreenBuffer.sameFrame_modifyRow ..
    -- the console behind what has been written
    have hsame (p : Coord) : Same (Console.moveTo { c with sb := sb } p) (c'.moveTo p) :=
      Same.moveTo ((Same.cells hframe).symm.trans h) p
    rw [hview]
    rcases hrest : (ch :: rest).drop k with _ | ⟨ch₂, rest₂⟩
    · have hlt : ¬ k < (ch :: rest).length := Nat.not_lt.mpr (List.drop_eq_nil_iff.mp hrest)
      simp only [hlt, decide_false, Bool.or_false, decide_eq_true_eq, if_true, if_neg hk0, loop_nil, ne_eq, not_true_eq_false,
        if_false]
      split
      · exact ⟨_, rfl, (hsame _).setWrap true⟩
      · exact ⟨_, rfl, hsame _⟩
    · have hlen := congrArg List.length hrest
      have hpos : 0 < (ch₂ :: rest₂).length := Nat.succ_pos _
      rw [List.length_drop] at hlen
      have hlt : k < (ch :: rest).length := by omega
      have hmem {ch' : Char32} (hch : ch' ∈ ch₂ :: rest₂) : ch' ∈ ch :: rest := List.mem_of_mem_drop (hrest ▸ hch)
      have hfit₂ := hfits ch₂ (hmem List.mem_cons_self)
      -- the line feed behind what has been written
      have hrows₂ : c.RowsAgree (rowsLeft cw view view.left (ch₂ :: rest₂) + 1) := by
        rw [rowsLeft_take cw k (ch :: rest) _ (hxe ▸ hxk), hxe, hrest, rowsLeft_cons (hstop ch₂ rest₂ hrest) hfit₂] at hrows
        exact hrows
      have hmove : Same (Console.moveTo c ⟨x, c.state.position.y⟩) (Console.moveTo { c with sb := sb } ⟨x, c.state.position.y⟩) :=
        (Same.cells hframe).moveTo _
      obtain ⟨hagree, hrows₃, hview₃⟩ := (show (c.moveTo ⟨x, c.state.position.y⟩).RowsAgree _ from hrows₂).next hin hy
        hv.top hv.bottom
      have hline := lineFeed_same (hsame _) (hmove.lineFeedAgrees.mpr hagree)
      have hleft := same_lineFeed (Console.moveTo { c with sb := sb } ⟨x, c.state.position.y⟩)
      have hframe₂ := hframe.trans hleft.sb
      have hx₂ : (Console.moveTo { c with sb := sb } ⟨x, c.state.position.y⟩).applyTerminalLineFeed.state.position.x =
          view.left := by
        rw [hleft.state, ← hview, ← hframe.viewport]
        rfl
      obtain ⟨r, hr, hrsame⟩ := loop_same cw n m hline (hmove.lineFeed.inView.mpr hview₃)
        (by rw [hframe₂.viewport, hframe₂.size]; exact hin) (by rw [hframe₂.size]; exact hx) (by rw [hframe₂.size]; exact hy)
        (by rw [hframe₂.viewport]; exact hview) (fun ch' hch => hfits ch' (hmem hch))
        (fun ch' hch => by
          obtain rfl := Option.some_inj.mp hch
          rw [hx₂]
          exact hfit₂)
        (by rw [hx₂]; exact hmove.lineFeed.rowsAgree.mpr hrows₃) (by omega) (by omega)
      simp only [hlt, decide_true, Bool.or_true, if_true, List.cons_ne_nil, if_false, ne_eq, not_false_eq_true]
      exact ⟨r, hr, hrsame⟩

instance (cw : Char32 → Int) (view : SmallRect) (text : List Char32) : Decidable (Fits cw view text) :=
  inferInstanceAs (Decidable (∀ ch ∈ text, _))

/-- How often a text leaves a row, with the wrap that waits. -/
def textRows (cw : Char32 → Int) (c : Console) (text : List Char32) : Nat :=
  let view := c.sb.viewport.rect
  let x := c.clampCursor.state.position.x
  if c.state.pendingWrap ∧ x = view.right then rowsLeft cw view view.left text + 1 else rowsLeft cw view x text

/-- The viewport has room for each character, the first one fits in the row of
the cursor, and no row that is left is the last one of a region that ends above
the viewport. -/
structure TextAgrees (cw : Char32 → Int) (c : Console) (text : List Char32) : Prop where
  fits : Fits cw c.sb.viewport.rect text
  first : c.state.pendingWrap ∧ c.clampCursor.state.position.x = c.sb.viewport.rect.right ∨
    ∀ ch ∈ text.head?, c.clampCursor.state.position.x + widthColumns cw ch - 1 ≤ c.sb.viewport.rect.right
  rows : c.clampCursor.RowsAgree (c.textRows cw text)

theorem text_same {text : List Char32} {n : Nat} (h : Same c c') (hin : c.sb.viewport.Inside c.sb.size)
    (hx : c.sb.size.x ≤ 0x7FFF) (hy : c.sb.size.y ≤ 0x7FFF) (ht : c.TextAgrees cw text) (hn : text.length ≤ n) :
    ∃ r, c.applyTerminalText cw n text = some ([], r) ∧ r.Same (c'.applyTerminalTextCursorOnly cw text) := by
  obtain ⟨hfits, hfirst, hrows⟩ := ht
  have hclamp := h.clampCursor
  have hv := clampCursor_inView hin
  unfold applyTerminalText startText applyTerminalTextCursorOnly
  dsimp only
  rw [h.sb.viewport, hclamp.state]
  by_cases hne : text = []
  · subst hne
    rw [if_pos rfl, if_pos rfl]
    exact ⟨_, loop_nil n, hclamp⟩
  have hlen : 0 < text.length := List.length_pos_iff.mpr hne
  rw [if_neg hne, if_neg hne]
  by_cases hwrap : c.clampCursor.state.pendingWrap ∧ c.clampCursor.state.position.x = c.sb.viewport.rect.right
  · have hwrap' : c.state.pendingWrap ∧ c.clampCursor.state.position.x = c.sb.viewport.rect.right := hwrap
    have hrows' : (c.clampCursor.setWrap false).RowsAgree (rowsLeft cw c.sb.viewport.rect c.sb.viewport.rect.left text + 1) := by
      unfold textRows at hrows
      dsimp only at hrows
      rwa [if_pos hwrap'] at hrows
    obtain ⟨hagree, hrows₂, hv₂⟩ := hrows'.next hin hy hv.top hv.bottom
    have hleft := same_lineFeed (c.clampCursor.setWrap false)
    have hx₂ : (c.clampCursor.setWrap false).applyTerminalLineFeed.state.position.x = c.sb.viewport.rect.left := by
      rw [hleft.state]
      rfl
    rw [if_pos hwrap, if_pos hwrap]
    refine loop_same cw n _ (lineFeed_same (hclamp.setWrap false) hagree) hv₂ ?_ ?_ ?_ ?_ hfits ?_ ?_ hn (Nat.le_refl _)
    · rw [hleft.sb.viewport, hleft.sb.size]
      exact hin
    · rw [hleft.sb.size]
      exact hx
    · rw [hleft.sb.size]
      exact hy
    · rw [hleft.sb.viewport]
      rfl
    · intro ch hch
      rw [hx₂]
      exact hfits ch (List.mem_of_mem_head? hch)
    · rw [hx₂]
      exact hrows₂
  · have hwrap' : ¬ (c.state.pendingWrap ∧ c.clampCursor.state.position.x = c.sb.viewport.rect.right) := hwrap
    rw [if_neg hwrap, if_neg hwrap]
    refine loop_same cw n _ (hclamp.setWrap false) ⟨hv.left, hv.right, hv.top, hv.bottom⟩ hin hx hy rfl hfits
      (hfirst.resolve_left hwrap') ?_ hn (Nat.le_refl _)
    unfold textRows at hrows
    dsimp only at hrows
    rwa [if_neg hwrap'] at hrows

theorem sb_cursorOnlyLoop (cw : Char32 → Int) (view : SmallRect) : ∀ (n : Nat) (text : List Char32) (c : Console),
    (cursorOnlyLoop cw view n text c).sb = c.sb
  | 0, _, _ => rfl
  | _ + 1, [], _ => rfl
  | n + 1, ch :: rest, c => by
    rw [cursorOnlyLoop]
    dsimp only
    split_ifs
    · rfl
    · exact (sb_cursorOnlyLoop cw view n _ _).trans rfl
    · rfl
    · rfl

theorem sb_textCursorOnly (cw : Char32 → Int) (text : List Char32) (c : Console) :
    (c.applyTerminalTextCursorOnly cw text).sb = c.sb := by
  unfold applyTerminalTextCursorOnly
  dsimp only
  rw [sb_cursorOnlyLoop]
  split_ifs <;> rfl

end Console
namespace VtConsole

variable {s s' : VtConsole}

/-! ## The messages of a write -/

variable {cw : Char32 → Int} {imageRows : List Char32 → Nat → Nat}
theorem Framed.consumeTextRun (h : s.Framed) {text : List Char32} {r : VtConsole}
    (hr : s.consumeTextRun cw false text = some r) : r.Framed := by
  unfold VtConsole.consumeTextRun applyText at hr
  split at hr
  · exact Option.some_inj.mp hr ▸ h
  · rw [if_neg Bool.false_ne_true] at hr
    exact Option.some_inj.mp hr ▸ h.onConsole (by rw [Console.sb_textCursorOnly]; exact .refl _)

theorem Framed.vtMsgApplyTerminalState (h : s.Framed) {id : VtMessageId} {payload : VtPayload} {r : VtConsole}
    (hr : s.vtMsgApplyTerminalState cw false id payload = some r) : r.Framed := by
  have hwrap : (if endsPendingWrap id then s.onConsole (·.setWrap false) else s).Framed := by
    split
    · exact h.onConsole (.refl _)
    · exact h
  unfold VtConsole.vtMsgApplyTerminalState at hr
  dsimp only at hr
  generalize (if endsPendingWrap id then s.onConsole (·.setWrap false) else s) = t at *
  cases id with
  | text =>
    unfold applyText at hr
    rw [if_neg Bool.false_ne_true] at hr
    exact Option.some_inj.mp hr ▸ hwrap.onConsole (by rw [Console.sb_textCursorOnly]; exact .refl _)
  | lineFeed => exact Option.some_inj.mp hr ▸ hwrap.onConsole (.refl _)
  | resizeWindow => exact hwrap.resizeWindow (isShort_resizeValue payload).1 (isShort_resizeValue payload).2 hr
  | _ => exact Option.some_inj.mp hr ▸ hwrap.applyMessage _ _

theorem Framed.iterate_lineFeed (n : Nat) (h : s.Framed) : ((applyLineFeed true)^[n] s).Framed := by
  induction n generalizing s with
  | zero => exact h
  | succ n ih => exact ih (h.onConsole (Console.same_lineFeed s.toConsole).sb)

/-- Without the cells, every message leaves the viewport inside the buffer. -/
theorem Framed.consumeMessage (h : s.Framed) {m : Emitted} {r : VtConsole}
    (hr : s.consumeMessage cw imageRows false m = some r) : r.Framed := by
  obtain ⟨id, msg, raw⟩ := m
  cases id with
  | continueText => exact h.consumeTextRun hr
  | text => exact h.consumeTextRun hr
  | unknownSequence =>
    simp only [VtConsole.consumeMessage] at hr
    split_ifs at hr
    · exact Option.some_inj.mp hr ▸ h.iterate_lineFeed _
    · exact Option.some_inj.mp hr ▸ h
    · exact h.consumeTextRun hr
  | osc8Hyperlink => exact Option.some_inj.mp hr ▸ h
  | charDel =>
    simp only [VtConsole.consumeMessage] at hr
    split_ifs at hr
    · exact Option.some_inj.mp hr ▸ h.of_frame (.refl _) rfl
    · exact Option.some_inj.mp hr ▸ h
  | useMainBuffer =>
    simp only [VtConsole.consumeMessage] at hr
    split_ifs at hr
    · exact (show Framed { s with resizedInAltScreen := false } from ⟨h.inside, h.width, h.height⟩).vtMsgApplyTerminalState hr
    · exact h.vtMsgApplyTerminalState hr
  | _ =>
    simp only [VtConsole.consumeMessage] at hr
    exact h.vtMsgApplyTerminalState hr

/-- The text that is written agrees. -/
def TextRunAgrees (cw : Char32 → Int) (s : VtConsole) (text : List Char32) : Prop :=
  isControlRun text = false → s.toConsole.TextAgrees cw text

/-- A message that both ways treat alike: a line feed that is not in the last
row of a region that ends above the viewport, a text whose first character
fits in the row of the cursor and that makes no such line feed, or any message
that is neither. -/
def StepAgrees (cw : Char32 → Int) (s : VtConsole) (m : Emitted) : Prop :=
  match m.id with
  | .continueText | .text => s.TextRunAgrees cw m.message.payload.textValue
  | .unknownSequence => isStringSequence m.rawSequence = false → s.TextRunAgrees cw m.message.payload.textValue
  | .lineFeed => s.toConsole.LineFeedAgrees
  | _ => True

/-- Both ways end in the same console, but for the cells. Where there is a
`resize_window` that `init_tab_stops` does not end on, neither does. -/
inductive SameEnd (overruns : Prop) : Option VtConsole → Option VtConsole → Prop
  | ended {r r' : VtConsole} (h : SameState r r') : SameEnd overruns (some r) (some r')
  | never (h : overruns) : SameEnd overruns none none

theorem SameEnd.mono {overruns overruns' : Prop} {o o' : Option VtConsole} (h : SameEnd overruns o o')
    (hover : overruns → overruns') : SameEnd overruns' o o' := by
  cases h with
  | ended hsame => exact .ended hsame
  | never h => exact .never (hover h)

theorem consumeTextRun_same (h : SameState s s') (hf : s.Framed) {text : List Char32} (ha : s.TextRunAgrees cw text)
    (overruns : Prop) : SameEnd overruns (s.consumeTextRun cw true text) (s'.consumeTextRun cw false text) := by
  obtain ⟨c, rfl⟩ : ∃ c, s' = { s with toConsole := c } := ⟨_, h.rest⟩
  unfold consumeTextRun applyText
  cases hcontrol : isControlRun text
  · obtain ⟨r, hr, hsame⟩ := Console.text_same h.console hf.inside hf.width hf.height (ha hcontrol)
      (show text.length ≤ 2 * text.length + 1 by omega)
    simp only [Bool.false_eq_true, if_false, if_true, hr, Option.map_some]
    exact .ended ⟨hsame, rfl⟩
  · exact .ended h

theorem resizeWindow_same (h : SameState s s') (payload : VtPayload) :
    SameEnd payload.Overruns (s.resizeWindow payload.resizeValue.1 payload.resizeValue.2)
      (s'.resizeWindow payload.resizeValue.1 payload.resizeValue.2) := by
  cases hr : s.resizeWindow payload.resizeValue.1 payload.resizeValue.2 with
  | none =>
    have hover := resizeWindow_eq_none_iff.mp hr
    rw [resizeWindow_eq_none_iff.mpr hover]
    exact .never hover
  | some r =>
    obtain ⟨r', hr', hsame⟩ := h.resizeWindow hr
    rw [hr']
    exact .ended hsame

theorem vtMsgApplyTerminalState_same (h : SameState s s') {id : VtMessageId} (hid : id ≠ .text)
    (ha : id = .lineFeed → s.toConsole.LineFeedAgrees) (payload : VtPayload) :
    SameEnd (id = .resizeWindow ∧ payload.Overruns) (s.vtMsgApplyTerminalState cw true id payload)
      (s'.vtMsgApplyTerminalState cw false id payload) := by
  have hwrap : SameState (if endsPendingWrap id then s.onConsole (·.setWrap false) else s)
      (if endsPendingWrap id then s'.onConsole (·.setWrap false) else s') := by
    split
    · exact h.onConsole (f := (·.setWrap false)) (g := (·.setWrap false)) (·.setWrap false)
    · exact h
  unfold vtMsgApplyTerminalState
  dsimp only
  generalize hs : (if endsPendingWrap id then s.onConsole (·.setWrap false) else s) = t at *
  cases id with
  | text => exact absurd rfl hid
  | lineFeed =>
    refine .ended (hwrap.onConsole fun hsame => ?_)
    refine Console.lineFeed_same hsame ?_
    rw [← hs]
    exact ha rfl
  | resizeWindow =>
    simp only [true_and]
    exact resizeWindow_same hwrap payload
  | _ => exact .ended (applyMessage_same hwrap _ _)

theorem iterate_lineFeed_same (n : Nat) (h : SameState s s') :
    SameState ((applyLineFeed true)^[n] s) ((applyLineFeed true)^[n] s') := by
  induction n generalizing s s' with
  | zero => exact h
  | succ n ih => exact ih (h.onConsole Console.Same.lineFeed)

variable (imageRows) in
/-- A step that agrees leads to the same console, but for the cells. -/
theorem consumeMessage_same (h : SameState s s') (hf : s.Framed) {m : Emitted} (ha : s.StepAgrees cw m) :
    SameEnd m.Overruns (s.consumeMessage cw imageRows true m) (s'.consumeMessage cw imageRows false m) := by
  have hview := h.console.sb.viewport
  have hstate := h.console.state
  obtain ⟨id, msg, raw⟩ := m
  cases id with
  | continueText => exact consumeTextRun_same h hf ha _
  | text => exact consumeTextRun_same h hf ha _
  | unknownSequence =>
    simp only [consumeMessage, hview]
    split_ifs with hstring himage
    · exact .ended (iterate_lineFeed_same _ h)
    · exact .ended h
    · exact consumeTextRun_same h hf (ha (Bool.eq_false_iff.mpr hstring)) _
  | osc8Hyperlink => exact .ended h
  | charDel =>
    simp only [consumeMessage, hview, hstate]
    split
    · have hwrap : SameState (s.onConsole (·.setWrap false)) (s'.onConsole (·.setWrap false)) :=
        h.onConsole (f := (·.setWrap false)) (g := (·.setWrap false)) (·.setWrap false)
      exact .ended (hwrap.moveTo _)
    · exact .ended h
  | useMainBuffer =>
    obtain ⟨c, rfl⟩ : ∃ c, s' = { s with toConsole := c } := ⟨_, h.rest⟩
    simp only [consumeMessage]
    split
    · have hsame : SameState { s with resizedInAltScreen := false } { s with toConsole := c, resizedInAltScreen := false } :=
        ⟨h.console, rfl⟩
      exact vtMsgApplyTerminalState_same hsame (fun hid => by cases hid) (fun hid => by cases hid) _
    · exact vtMsgApplyTerminalState_same h (fun hid => by cases hid) (fun hid => by cases hid) _
  | lineFeed =>
    simp only [consumeMessage]
    exact vtMsgApplyTerminalState_same h (fun hid => by cases hid) (fun _ => ha) _
  | _ =>
    simp only [consumeMessage]
    exact vtMsgApplyTerminalState_same h (fun hid => by cases hid) (fun hid => by cases hid) _

/-- The steps agree, from the console that the messages before have left. -/
def RunAgrees (cw : Char32 → Int) (imageRows : List Char32 → Nat → Nat) : VtConsole → List Emitted → Prop
  | _, [] => True
  | s, m :: ms => s.StepAgrees cw m ∧ ∀ r, s.consumeMessage cw imageRows true m = some r → r.RunAgrees cw imageRows ms

theorem consumeMessages_cons (emitVt : Bool) (m : Emitted) (ms : List Emitted) (s : VtConsole) :
    s.consumeMessages cw imageRows emitVt (m :: ms) =
      (s.consumeMessage cw imageRows emitVt m).bind (·.consumeMessages cw imageRows emitVt ms) := List.foldlM_cons

theorem consumeMessages_same : ∀ (ms : List Emitted) {s s' : VtConsole}, SameState s s' → s'.Framed →
    s.RunAgrees cw imageRows ms → SameEnd (∃ m ∈ ms, m.Overruns) (s.consumeMessages cw imageRows true ms)
      (s'.consumeMessages cw imageRows false ms)
  | [], s, s', h, _, _ => .ended h
  | m :: ms, s, s', h, hf, ⟨ha, hrest⟩ => by
    have hfs : s.Framed := hf.of_frame h.console.sb.symm rfl
    have hstep := consumeMessage_same imageRows h hfs ha
    rw [consumeMessages_cons, consumeMessages_cons]
    generalize hr : s.consumeMessage cw imageRows true m = o at hstep
    generalize hr' : s'.consumeMessage cw imageRows false m = o' at hstep
    cases hstep with
    | never hover => exact .never ⟨m, List.mem_cons_self, hover⟩
    | ended hsame =>
      have hlast := consumeMessages_same ms hsame (hf.consumeMessage hr') (hrest _ hr)
      exact hlast.mono fun ⟨m', hm', hover⟩ => ⟨m', List.mem_cons_of_mem _ hm', hover⟩

end VtConsole

open VtConsole

/-- The two ways of a write leave the same console, but for the cells, after
each of its messages, when every message before agrees. The consoles that they
start from are the same, but for the cells, and the viewport is inside the
buffer. At a `resize_window` that does not end they both stay. -/
theorem cursor_only_agrees (cw : Char32 → Int) (imageRows : List Char32 → Nat → Nat) {s s' : VtConsole} (h : SameState s s')
    (hs : s.Framed) (p : VtParser) (input : List Char32) :
    let ms := (outputMessages input.length p (s.inCharset input)).1
    (∀ k, s.RunAgrees cw imageRows (ms.take k) → SameEnd (∃ m ∈ ms.take k, m.Overruns)
      (s.consumeMessages cw imageRows true (ms.take k)) (s'.consumeMessages cw imageRows false (ms.take k))) ∧
    (s.RunAgrees cw imageRows ms →
      (s.write cw imageRows true p input).map Prod.fst = (s'.write cw imageRows false p input).map Prod.fst ∧
      SameEnd (∃ m ∈ ms, m.Overruns) ((s.write cw imageRows true p input).map Prod.snd)
        ((s'.write cw imageRows false p input).map Prod.snd)) := by
  intro ms
  have hs' : s'.Framed := hs.of_frame h.console.sb rfl
  have hcharset : s'.inCharset input = s.inCharset input := by
    unfold inCharset
    rw [h.rest]
  refine ⟨fun k hk => consumeMessages_same (ms.take k) h hs' hk, fun hrun => ?_⟩
  have hend := consumeMessages_same ms h hs' hrun
  have hwrite (o : Option VtConsole) (parser : VtParser) :
      (o.map fun r => (parser, r)).map Prod.snd = o ∧ (o.map fun r => (parser, r)).map Prod.fst = o.map fun _ => parser := by
    cases o <;> exact ⟨rfl, rfl⟩
  unfold write
  rw [hcharset]
  dsimp only
  simp only [hwrite]
  refine ⟨?_, hend⟩
  generalize s.consumeMessages cw imageRows true ms = o at hend
  generalize s'.consumeMessages cw imageRows false ms = o' at hend
  cases hend <;> rfl

/-- A new console of three columns and three rows, without tab stops. -/
def smallConsole : VtConsole := { sb := .ofSize ⟨3, 3⟩, screenBufferSize := ⟨3, 3⟩ }

/-- A wide character that does not fit behind two narrow ones. -/
theorem cursor_only_agrees_text :
    let cw : Char32 → Int := fun ch => if ch = 0x4E2D then 2 else 1
    let write := fun emitVt => smallConsole.write cw (fun _ _ => 0) emitVt {} [0x61, 0x62, 0x4E2D]
    (write true).map Prod.fst = (write false).map Prod.fst ∧
      ∃ r r', (write true).map Prod.snd = some r ∧ (write false).map Prod.snd = some r' ∧ SameState r r' := by
  intro cw write
  have hin : smallConsole.Framed := ⟨ConsoleViewport.ofBuffer_inside (by decide) (by decide), by decide, by decide⟩
  have hrun : smallConsole.RunAgrees cw (fun _ _ => 0) [⟨.continueText, { payload := .text [0x61, 0x62, 0x4E2D] }, []⟩] :=
    ⟨fun _ => ⟨by decide, by decide, by decide⟩, fun _ _ => trivial⟩
  obtain ⟨hparser, hend⟩ :=
    (@cursor_only_agrees cw (fun _ _ => 0) smallConsole smallConsole (.refl _) hin {} [0x61, 0x62, 0x4E2D]).2 hrun
  refine ⟨hparser, ?_⟩
  change SameEnd _ ((write true).map Prod.snd) ((write false).map Prod.snd) at hend
  generalize (write true).map Prod.snd = o at hend
  generalize (write false).map Prod.snd = o' at hend
  cases hend with
  | ended hsame => exact ⟨_, _, rfl, rfl, hsame⟩
  | never hover =>
    obtain ⟨m, hm, hid, -⟩ := hover
    exact absurd (List.mem_singleton.mp hm ▸ hid) (by decide)

/-- `ESC [ 1 ; 2 r` and two line feeds: with the cells the region scrolls, and
without them the cursor leaves it. -/
theorem cursor_only_leaves_region :
    let input := chars ['\x1b', '[', '1', ';', '2', 'r', '\n', '\n']
    (smallConsole.write (fun _ => 1) (fun _ _ => 0) true {} input).map (·.2.state.position) = some ⟨0, 1⟩ ∧
      (smallConsole.write (fun _ => 1) (fun _ _ => 0) false {} input).map (·.2.state.position) = some ⟨0, 2⟩ := by
  decide

end Corehost
