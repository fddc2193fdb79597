import Corehost.Screen.Frame
import Corehost.Screen.History

/-!
# Text output

The model of `apply_terminal_line_feed` and `apply_terminal_text`
(`api_handlers.hpp`). As in `ScreenBuffer.writeTextRow`, `cw ch` is what
`char_width_for_mode` returns for a character, in the measurement mode of the
console.

The abstract meaning of the output is `Console.putChar`, one character after the
other, with the wrap decided in front of a character. Main results:

* `applyTerminalTextLoop_some`: the loop ends and has put each character, when
  each of them fits into the viewport;
* `apply_terminal_text_ends_iff`: when `apply_terminal_text` ends;
* `apply_terminal_text_append`: a text that is written in two parts.
-/

namespace Corehost

open Lib Lib.Strip ScreenBufferRow
open ScreenBuffer (glyphOf cols_glyphOf widthColumns_cases measureRow measureRow_glyphs measureRow_stop)

/-- The fields of `console_state` that output changes or depends on.
`position` and `pendingWrap` are those of its cursor. -/
structure ConsoleState where
  position : Coord := {}
  pendingWrap : Bool := false
  defaultAttributes : UInt16 := 0x07
  scrollRegionTop : Int := 1
  scrollRegionBottom : Int := 0
deriving DecidableEq, Repr

/-- `terminal_scroll_region`. -/
def ConsoleState.scrollRegion (state : ConsoleState) (view : SmallRect) : SmallRect :=
  if state.scrollRegionTop = 1 ∧ state.scrollRegionBottom ≤ 0 then view
  else
    let height := i16 (view.bottom - view.top + 1)
    let top := clamp state.scrollRegionTop 1 height
    let bottom := if state.scrollRegionBottom ≤ 0 then height else clamp state.scrollRegionBottom 1 height
    if top ≥ bottom then view
    else ⟨view.left, i16 (view.top + top - 1), view.right, i16 (view.top + bottom - 1)⟩

/-- A `console_state` and its `screen_buffer`. -/
structure Console where
  state : ConsoleState := {}
  sb : ScreenBuffer
deriving DecidableEq, Repr

namespace Console

def moveTo (c : Console) (position : Coord) : Console := { c with state := { c.state with position } }

def setWrap (c : Console) (pendingWrap : Bool) : Console := { c with state := { c.state with pendingWrap } }

/-- The row below, or the same row of the screen after it has scrolled. -/
def applyTerminalLineFeed (c : Console) : Console :=
  let view := c.sb.viewport.rect
  let y := c.state.position.y
  if c.state.scrollRegionTop = 1 ∧ c.state.scrollRegionBottom ≤ 0 then
    if y = view.bottom then
      { c with sb := c.sb.scroll view view true ⟨view.left, i16 (view.top - 1)⟩ 0x20 c.state.defaultAttributes }.moveTo
        ⟨view.left, view.bottom⟩
    else c.moveTo ⟨view.left, min view.bottom (i16 (y + 1))⟩
  else
    let region := c.state.scrollRegion view
    if y = region.bottom ∧ y ≥ region.top then
      { c with sb := c.sb.scroll region region true ⟨region.left, i16 (region.top - 1)⟩ 0x20 c.state.defaultAttributes }.moveTo
        ⟨view.left, region.bottom⟩
    else c.moveTo ⟨view.left, min view.bottom (i16 (y + 1))⟩

/-- The loop of `apply_terminal_text`, at most `n` times: the text that is left
and the console, or nothing while the loop goes on. -/
def applyTerminalTextLoop (cw : Char32 → Int) (view : SmallRect) :
    Nat → List Char32 → Console → Option (List Char32 × Console)
  | _, [], c => some ([], c)
  | 0, _ :: _, _ => none
  | n + 1, ch :: rest, c =>
    let (result, position, sb) := c.sb.writeTextRow cw c.state.position (ch :: rest) c.state.defaultAttributes
    let c := { c with sb := sb }.moveTo position
    let remaining := (ch :: rest).drop result.consumed
    if result.rowEnd then
      -- behind the last column the cursor waits for more text
      if remaining = [] then some ([], (c.moveTo { position with x := view.right }).setWrap true)
      else applyTerminalTextLoop cw view n remaining c.applyTerminalLineFeed
    else if result.consumed = 0 then some (remaining, c)
    else applyTerminalTextLoop cw view n remaining c

def clampCursor (c : Console) : Console :=
  let view := c.sb.viewport.rect
  c.moveTo ⟨clamp c.state.position.x view.left view.right, clamp c.state.position.y view.top view.bottom⟩

/-- What `apply_terminal_text` does before its loop. -/
def startText (c : Console) (text : List Char32) : Console :=
  let view := c.sb.viewport.rect
  let c := c.clampCursor
  if text = [] then c
  else if c.state.pendingWrap ∧ c.state.position.x = view.right then (c.setWrap false).applyTerminalLineFeed
  else c.setWrap false

/-- `apply_terminal_text`, with a bound for the turns of its loop. -/
def applyTerminalText (cw : Char32 → Int) (n : Nat) (text : List Char32) (c : Console) : Option (List Char32 × Console) :=
  applyTerminalTextLoop cw c.sb.viewport.rect n text (c.startText text)

/-! ## One character after the other -/

/-- The console in front of a character: a wrap that waits has been done, and
the row is left when the character does not fit. -/
def wrapFor (cw : Char32 → Int) (c : Console) (ch : Char32) : Console :=
  let view := c.sb.viewport.rect
  let x := c.state.position.x
  if c.state.pendingWrap ∧ x = view.right ∨ x + widthColumns cw ch - 1 > view.right then
    (c.setWrap false).applyTerminalLineFeed
  else c.setWrap false

/-- The cursor behind what has been written up to column `x`. It stays on the last column and waits. -/
def advance (c : Console) (sb : ScreenBuffer) (x : Int) : Console :=
  let view := c.sb.viewport.rect
  if x > view.right then ({ c with sb := sb }.moveTo ⟨view.right, c.state.position.y⟩).setWrap true
  else { c with sb := sb }.moveTo ⟨x, c.state.position.y⟩

/-- A glyph at the cursor. -/
def writeChar (cw : Char32 → Int) (c : Console) (ch : Char32) : Console :=
  let w := widthColumns cw ch
  c.advance (c.sb.modifyRow c.state.position.y fun r =>
    r.writeGlyph c.state.position.x.toNat [ch] w (.ofWord c.state.defaultAttributes)) (c.state.position.x + w)

def putChar (cw : Char32 → Int) (c : Console) (ch : Char32) : Console := (c.wrapFor cw ch).writeChar cw ch

end Console

/-! ## Buffers that show the same -/

section Alike

variable {w : Nat} {f g : ScreenBufferRow → ScreenBufferRow} {r r' : ScreenBufferRow} {s s' p : ScreenBuffer}

/-- What the two operations make of a row shows the same. -/
def ActAlike (w : Nat) (f g : ScreenBufferRow → ScreenBufferRow) : Prop :=
  ∀ gs as, (∃ r : ScreenBufferRow, r.Shows w gs as) →
    ∃ gs' as', ∀ r : ScreenBufferRow, r.Shows w gs as → (f r).Shows w gs' as' ∧ (g r).Shows w gs' as'

theorem ActAlike.symm (h : ActAlike w f g) : ActAlike w g f := fun gs as hex =>
  let ⟨gs', as', h⟩ := h gs as hex
  ⟨gs', as', fun r hr => (h r hr).symm⟩

theorem ActAlike.acts (h : ActAlike w f g) : Acts w f := fun gs as hex =>
  let ⟨gs', as', h⟩ := h gs as hex
  ⟨gs', as', fun r hr => (h r hr).1⟩

theorem ActAlike.sameRow (h : ActAlike w f g) (hr : SameRow w r r') : SameRow w (f r) (g r') := by
  obtain ⟨gs, as, h1, h2⟩ := hr
  obtain ⟨gs', as', h⟩ := h gs as ⟨r, h1⟩
  exact ⟨gs', as', (h r h1).1, (h r' h2).2⟩

/-- A text run, and the same glyphs one after the other. -/
theorem actAlike_writeTextRun {x : Nat} {new : List (Glyph Char32)} (hne : new ≠ []) (hfit : x + cols new ≤ w)
    (a : TextAttribute) : ActAlike w (fun r => r.writeTextRun x (new.map Glyph.char) (new.map Glyph.cols) a)
      (fun r => r.writeGlyphs x a (new.map fun g => (g.char, g.cols))) := by
  intro gs as ⟨r, hr⟩
  obtain ⟨g, rest, rfl⟩ := List.exists_cons_of_ne_nil hne
  have heach : overwriteEach 0x20 gs x (g :: rest) = put gs x (g :: rest) :=
    overwriteEach_eq _ g rest (by rw [hr.cols_eq]; exact hfit)
  exact ⟨_, _, fun r hr => ⟨hr.writeTextRun hne hfit a, heach ▸ hr.writeGlyphs a (g :: rest) hfit⟩⟩

namespace ScreenBuffer

/-- Both buffers show the same. -/
def Alike (s s' : ScreenBuffer) : Prop := ∃ p, Sim s p ∧ Sim s' p

theorem Alike.refl (h : s.Sized) (hin : s.viewport.Inside s.size) : Alike s s := ⟨_, Sim.plain h hin, Sim.plain h hin⟩

theorem Alike.symm (h : Alike s s') : Alike s' s := let ⟨p, h1, h2⟩ := h; ⟨p, h2, h1⟩

theorem Alike.sized (h : Alike s s') : s.Sized ∧ s.viewport.Inside s.size := let ⟨_, h1, _⟩ := h; ⟨h1.sized, h1.inside⟩

theorem Alike.same_size (h : Alike s s') : s'.size = s.size ∧ s'.viewport = s.viewport := by
  obtain ⟨p, h1, h2⟩ := h
  exact ⟨h2.size.symm.trans h1.size, h2.viewport.symm.trans h1.viewport⟩

theorem Alike.visible_eq (h : Alike s s') {y : Int} (hy : y < s.size.y) : (s.row y).visible = (s'.row y).visible := by
  obtain ⟨p, h1, h2⟩ := h
  rw [h1.visible_eq hy, h2.visible_eq (by rw [← h2.size, h1.size]; exact hy)]

theorem Alike.modifyRow (h : Alike s s') {y : Int} (hy : y < s.size.y) (hfg : ActAlike s.size.x.toNat f g) :
    Alike (s.modifyRow y f) (s'.modifyRow y g) := by
  have hsize := h.same_size.1
  obtain ⟨p, h1, h2⟩ := h
  refine ⟨p.modifyRow y f, h1.modifyRow hy hfg.acts, h2.modifyRows (by rw [hsize]; exact hy) ?_ ?_⟩ <;> rw [hsize]
  · exact hfg.symm.acts
  · exact fun _ _ => hfg.symm.sameRow

theorem Alike.scroll (h : Alike s s') (sr clip : SmallRect) (useClip : Bool) (dest : Coord) (cp : Char32) (attr : UInt16) :
    Alike (s.scroll sr clip useClip dest cp attr) (s'.scroll sr clip useClip dest cp attr) := by
  obtain ⟨p, h1, h2⟩ := h
  exact ⟨_, h1.scroll sr clip useClip dest cp attr, h2.scroll sr clip useClip dest cp attr⟩

end ScreenBuffer

end Alike

/-! ## The line feed -/

namespace Console

variable {cw : Char32 → Int} {c c' : Console} {ch : Char32} {text : List Char32}

/-- The same state, and buffers that show the same. -/
structure Alike (c c' : Console) : Prop where
  state : c.state = c'.state
  sb : c.sb.Alike c'.sb

theorem Alike.refl (h : c.sb.Sized) (hin : c.sb.viewport.Inside c.sb.size) : c.Alike c := ⟨rfl, .refl h hin⟩

/-- The cursor is in the viewport. -/
structure InView (c : Console) : Prop where
  left : c.sb.viewport.rect.left ≤ c.state.position.x
  right : c.state.position.x ≤ c.sb.viewport.rect.right
  top : c.sb.viewport.rect.top ≤ c.state.position.y
  bottom : c.state.position.y ≤ c.sb.viewport.rect.bottom

theorem Alike.lineFeed (h : c.Alike c') : c.applyTerminalLineFeed.Alike c'.applyTerminalLineFeed := by
  have hview := h.sb.same_size.2
  unfold applyTerminalLineFeed
  rw [← h.state, hview]
  dsimp only
  split_ifs
  · exact ⟨by simp only [moveTo, h.state], h.sb.scroll ..⟩
  · exact ⟨by simp only [moveTo, h.state], h.sb⟩
  · exact ⟨by simp only [moveTo, h.state], h.sb.scroll ..⟩
  · exact ⟨by simp only [moveTo, h.state], h.sb⟩

/-- What a line feed leaves: the cursor at the left edge of the viewport, in one of its rows. -/
structure AtLeft (c c' : Console) : Prop where
  viewport : c'.sb.viewport = c.sb.viewport
  pendingWrap : c'.state.pendingWrap = c.state.pendingWrap
  x : c'.state.position.x = c.sb.viewport.rect.left
  top : c.sb.viewport.rect.top ≤ c'.state.position.y
  bottom : c'.state.position.y ≤ c.sb.viewport.rect.bottom

theorem lineFeed_atLeft (h : c.sb.Sized) (hin : c.sb.viewport.Inside c.sb.size)
    (htop : c.sb.viewport.rect.top ≤ c.state.position.y) (hbottom : c.state.position.y ≤ c.sb.viewport.rect.bottom) :
    AtLeft c c.applyTerminalLineFeed := by
  have hy := h.height
  have hb := hin.bottom
  have htb := hin.topBottom
  have h0 := hin.top
  have hnext : i16 (c.state.position.y + 1) = c.state.position.y + 1 := i16_of_range (by omega) (by omega)
  unfold applyTerminalLineFeed
  dsimp only
  split_ifs with h1 h2 h2
  · exact ⟨(ScreenBuffer.sameFrame_scroll ..).viewport, rfl, rfl, htb, Int.le_refl _⟩
  · refine ⟨rfl, rfl, rfl, ?_, ?_⟩ <;> simp only [moveTo, hnext] <;> omega
  · refine ⟨(ScreenBuffer.sameFrame_scroll ..).viewport, rfl, rfl, ?_, ?_⟩ <;> simp only [moveTo, ← h2.1] <;> assumption
  · refine ⟨rfl, rfl, rfl, ?_, ?_⟩ <;> simp only [moveTo, hnext] <;> omega

theorem AtLeft.inView (h : AtLeft c c') (hlr : c.sb.viewport.rect.left ≤ c.sb.viewport.rect.right) : c'.InView := by
  have hx := h.x
  constructor <;> rw [h.viewport]
  · omega
  · omega
  · exact h.top
  · exact h.bottom

/-! ## Characters that fit -/

theorem modifyRow_modifyRow (s : ScreenBuffer) (y : Int) (f g : ScreenBufferRow → ScreenBufferRow) :
    (s.modifyRow y f).modifyRow y g = s.modifyRow y fun r => g (f r) := by
  have hindex : (s.modifyRow y f).physicalRowIndex y = s.physicalRowIndex y := by
    simp only [ScreenBuffer.physicalRowIndex, ScreenBuffer.modifyRow, List.length_modify]
  rw [ScreenBuffer.modifyRow, hindex]
  simp only [ScreenBuffer.modifyRow, List.modify_modify_eq]
  rfl

/-- The buffer after a run has been written at the cursor, one character after the other. -/
def runBuffer (cw : Char32 → Int) (c : Console) (text : List Char32) : ScreenBuffer :=
  c.sb.modifyRow c.state.position.y fun r =>
    r.writeGlyphs c.state.position.x.toNat (.ofWord c.state.defaultAttributes)
      ((text.map (glyphOf cw)).map fun g => (g.char, g.cols))

theorem writeChar_eq : writeChar cw c ch = c.advance (c.runBuffer cw [ch]) (c.state.position.x + (glyphOf cw ch).cols) := by
  unfold writeChar runBuffer
  rw [← cols_glyphOf cw ch]
  rfl

/-- The cursor has not reached the last column. -/
theorem advance_of_le {sb : ScreenBuffer} {x : Int} (h : x ≤ c.sb.viewport.rect.right) :
    c.advance sb x = Console.moveTo { c with sb := sb } ⟨x, c.state.position.y⟩ := by
  rw [advance, if_neg (by omega)]

theorem advance_moveTo (sb : ScreenBuffer) (x x' : Int) :
    (Console.moveTo { c with sb := c.runBuffer cw [ch] } ⟨x, c.state.position.y⟩).advance sb x' = c.advance sb x' := rfl

theorem runBuffer_cons (h0 : 0 ≤ c.state.position.x) :
    (Console.moveTo { c with sb := c.runBuffer cw [ch] }
        ⟨c.state.position.x + (glyphOf cw ch).cols, c.state.position.y⟩).runBuffer cw text =
      c.runBuffer cw (ch :: text) := by
  have hx : (c.state.position.x + (glyphOf cw ch).cols).toNat = c.state.position.x.toNat + (glyphOf cw ch).cols := by omega
  unfold runBuffer
  dsimp only [moveTo]
  rw [modifyRow_modifyRow, hx]
  rfl

theorem wrapFor_of_fits (hp : c.state.pendingWrap = false)
    (hfit : c.state.position.x + widthColumns cw ch - 1 ≤ c.sb.viewport.rect.right) : c.wrapFor cw ch = c := by
  unfold wrapFor
  rw [if_neg (by simp [hp]; omega), setWrap, ← hp]

/-- Characters that fit into the row are written into it, one behind the other. -/
theorem foldl_putChar (cw : Char32 → Int) : ∀ (text : List Char32) {c : Console}, text ≠ [] → c.state.pendingWrap = false →
    0 ≤ c.state.position.x → c.state.position.x + cols (text.map (glyphOf cw)) ≤ c.sb.viewport.rect.right + 1 →
    text.foldl (putChar cw) c = c.advance (c.runBuffer cw text) (c.state.position.x + cols (text.map (glyphOf cw)))
  | [], _, h, _, _, _ => absurd rfl h
  | ch :: text, c, _, hp, h0, hfit => by
    have hg := cols_glyphOf cw ch
    rw [List.map_cons, cols_cons] at hfit ⊢
    push_cast at hfit ⊢
    rw [List.foldl_cons, putChar, wrapFor_of_fits hp (by omega), writeChar_eq]
    by_cases hne : text = []
    · rw [hne, List.map_nil, cols_nil, List.foldl_nil, Nat.cast_zero, Int.add_zero]
    · have hpos := length_le_cols (text.map (glyphOf cw))
      have hlen := List.length_pos_iff.mpr hne
      rw [List.length_map] at hpos
      have hrest := foldl_putChar cw text (c := Console.moveTo { c with sb := c.runBuffer cw [ch] }
        ⟨c.state.position.x + (glyphOf cw ch).cols, c.state.position.y⟩) hne hp (by dsimp only [moveTo]; omega)
        (by change c.state.position.x + (glyphOf cw ch).cols + _ ≤ c.sb.viewport.rect.right + 1; omega)
      rw [advance_of_le (by omega), hrest, runBuffer_cons h0]
      rw [advance_moveTo, ← Int.add_assoc]
      rfl

/-! ## The loop -/

/-- The row that is written in one turn of the loop, with the cursor behind it. -/
theorem writeTextRow_inView (cw : Char32 → Int) (h : c.InView) (hin : c.sb.viewport.Inside c.sb.size)
    (hx : c.sb.size.x ≤ 0x7FFF) (hne : text ≠ []) (attr : UInt16) : ∃ k ≤ text.length,
    let new := (text.take k).map (glyphOf cw)
    let x := c.state.position.x + cols new
    x ≤ c.sb.viewport.rect.right + 1 ∧
    (∀ ch rest, text.drop k = ch :: rest → c.sb.viewport.rect.right < x + widthColumns cw ch - 1) ∧
    c.sb.writeTextRow cw c.state.position text attr =
      ({ consumed := k, rowEnd := x > c.sb.viewport.rect.right || k < text.length }, ⟨x, c.state.position.y⟩,
        if k = 0 then c.sb else c.sb.modifyRow c.state.position.y fun r =>
          r.writeTextRun c.state.position.x.toNat (new.map Glyph.char) (new.map Glyph.cols) (.ofWord attr)) := by
  obtain ⟨hl, hr, ht, hb⟩ := h
  have hleft := hin.left
  have hright := hin.right
  obtain ⟨h1, h2⟩ := @measureRow_glyphs cw c.state.position.x c.sb.viewport.rect.right (by omega) (by omega)
    text 0 (by omega)
  have h3 := @measureRow_stop cw c.state.position.x c.sb.viewport.rect.right (by omega) (by omega) text 0
    (by omega)
  have hlen := congrArg List.length h1
  unfold ScreenBuffer.writeTextRow
  rw [if_neg hne]
  dsimp only
  rw [clamp_of_mem hl hr, clamp_of_mem ht hb]
  generalize measureRow cw c.state.position.x c.sb.viewport.rect.right 0 text = widths at *
  have hsum : widths.sum = cols ((text.take widths.length).map (glyphOf cw)) := by
    rw [← sum_map_cols, ← h1]
  have hchars : text.take widths.length = ((text.take widths.length).map (glyphOf cw)).map Glyph.char := by
    simp [Function.comp_def, glyphOf]
  simp only [List.length_map, List.length_take] at hlen
  simp only [Int.natCast_zero, Int.add_zero] at h2 h3
  refine ⟨widths.length, by omega, h2, h3, ?_⟩
  rw [hsum, ← h1, ← hchars, u16_of_lt (show c.state.position.x.toNat < 0x10000 by omega), u16_of_lt (by omega),
    i16_of_range (by omega) (by omega)]
  by_cases hk : widths.length = 0
  · simp [hk]
  · simp [hk]

variable (text) in
/-- What is written in one turn is what the characters write one by one. -/
theorem run_alike (h : c.Alike c') (hv : c.InView) (hp : c.state.pendingWrap = false) (hin : c.sb.viewport.Inside c.sb.size)
    (hfit : c.state.position.x + cols (text.map (glyphOf cw)) ≤ c.sb.viewport.rect.right + 1) : ∃ sb',
    (if text.length = 0 then c.sb else c.sb.modifyRow c.state.position.y fun r =>
        r.writeTextRun c.state.position.x.toNat ((text.map (glyphOf cw)).map Glyph.char)
          ((text.map (glyphOf cw)).map Glyph.cols) (.ofWord c.state.defaultAttributes)).Alike sb' ∧
      text.foldl (putChar cw) c' = c'.advance sb' (c.state.position.x + cols (text.map (glyphOf cw))) := by
  have hview := h.sb.same_size.2
  have hl := hv.left
  have hleft := hin.left
  by_cases hne : text = []
  · subst hne
    refine ⟨c'.sb, h.sb, ?_⟩
    rw [h.state, List.map_nil, cols_nil, Int.natCast_zero, Int.add_zero, advance_of_le (by rw [← h.state, hview]; exact hv.right)]
    rfl
  · have hlen := List.length_pos_iff.mpr hne
    refine ⟨c'.runBuffer cw text, ?_, ?_⟩
    · rw [if_neg (by omega), runBuffer, ← h.state]
      have hb := hv.bottom
      have hbottom := hin.bottom
      have hright := hin.right
      exact h.sb.modifyRow (by omega) (actAlike_writeTextRun (by simpa using hne) (by omega) _)
    · rw [foldl_putChar cw text hne (by rw [← h.state]; exact hp) (by rw [← h.state]; omega)
        (by rw [← h.state, hview]; exact hfit), ← h.state]

theorem Alike.advance {sb sb' : ScreenBuffer} (h : c.Alike c') (hsb : sb.Alike sb') (x : Int) :
    (c.advance sb x).Alike (c'.advance sb' x) := by
  unfold Console.advance
  rw [h.sb.same_size.2, h.state]
  dsimp only
  split_ifs
  · exact ⟨rfl, hsb⟩
  · exact ⟨rfl, hsb⟩

/-- The cursor stays in the viewport. -/
theorem advance_inView {sb : ScreenBuffer} {x : Int} (h : c.InView) (hsb : sb.viewport = c.sb.viewport)
    (hx : c.state.position.x ≤ x) : (c.advance sb x).InView := by
  obtain ⟨hl, hr, ht, hb⟩ := h
  unfold advance
  dsimp only
  split_ifs with hright
  · refine ⟨?_, ?_, ?_, ?_⟩ <;> simp only [moveTo, setWrap, hsb] <;> omega
  · refine ⟨?_, ?_, ?_, ?_⟩ <;> simp only [moveTo, hsb] <;> omega

/-- A wrap before a character that fits at the left edge is done once. -/
theorem putChar_wrapped (hin : c.sb.viewport.rect.left + widthColumns cw ch - 1 ≤ c.sb.viewport.rect.right)
    {c₁ : Console} (h : AtLeft (c.setWrap false) c₁) (hc₁ : c.wrapFor cw ch = c₁) : putChar cw c ch = putChar cw c₁ ch := by
  have hstay : c₁.wrapFor cw ch = c₁ := by
    refine wrapFor_of_fits h.pendingWrap ?_
    rw [h.x, h.viewport]
    exact hin
  rw [putChar, putChar, hc₁, hstay]

variable {view : SmallRect}

/-- The characters that the viewport has room for. -/
def Fits (cw : Char32 → Int) (view : SmallRect) (text : List Char32) : Prop :=
  ∀ ch ∈ text, view.left + widthColumns cw ch - 1 ≤ view.right

theorem loop_nil (n : Nat) : applyTerminalTextLoop cw view n [] c = some ([], c) := by
  cases n <;> rfl

variable (cw) in
/-- What one turn of the loop leaves: the end of the loop, or a row that is full. -/
theorem loop_turn (h : c.Alike c') (hv : c.InView) (hp : c.state.pendingWrap = false) (hne : text ≠ [])
    (hview : c.sb.viewport.rect = view) (n : Nat) : ∃ k ≤ text.length, ∃ sb sb',
    sb.Alike sb' ∧ sb.viewport = c.sb.viewport ∧
    let x := c.state.position.x + cols ((text.take k).map (glyphOf cw))
    x ≤ view.right + 1 ∧
    (∀ ch rest, text.drop k = ch :: rest → view.right < x + widthColumns cw ch - 1) ∧
    (text.take k).foldl (putChar cw) c' = c'.advance sb' x ∧
    applyTerminalTextLoop cw view (n + 1) text c =
      if text.drop k = [] then some ([], c.advance sb x)
      else applyTerminalTextLoop cw view n (text.drop k)
        (Console.moveTo { c with sb := sb } ⟨x, c.state.position.y⟩).applyTerminalLineFeed := by
  obtain ⟨hsized, hin⟩ := h.sb.sized
  obtain ⟨ch, rest, rfl⟩ := List.exists_cons_of_ne_nil hne
  obtain ⟨k, hk, hx, hstop, hwrite⟩ := writeTextRow_inView cw hv hin hsized.width.2 hne c.state.defaultAttributes
  obtain ⟨sb', halike, hfold⟩ := run_alike ((ch :: rest).take k) h hv hp hin hx
  rw [List.length_take, Nat.min_eq_left hk] at halike
  rw [hview] at hx hstop
  refine ⟨k, hk, _, sb', halike, ?_, hx, hstop, hfold, ?_⟩
  · split <;> rfl
  rw [applyTerminalTextLoop, hwrite]
  dsimp only
  rw [hview]
  by_cases hrest : (ch :: rest).drop k = []
  · have hfull : k = (ch :: rest).length := Nat.le_antisymm hk (List.drop_eq_nil_iff.mp hrest)
    have hlt : ¬ k < (ch :: rest).length := by omega
    have hpos : k ≠ 0 := by rw [hfull, List.length_cons]; omega
    rw [hrest]
    simp only [hlt, decide_false, Bool.or_false, decide_eq_true_eq, if_true, if_neg hpos, loop_nil]
    unfold advance
    rw [hview]
    dsimp only
    split_ifs <;> rfl
  · have hlt : k < (ch :: rest).length := by
      by_contra hge
      exact hrest (List.drop_eq_nil_iff.mpr (Nat.le_of_not_lt hge))
    simp only [hlt, decide_true, Bool.or_true, if_true, if_neg hrest]

/-- The cursor after a line feed behind what has been written. -/
theorem lineFeed_row {sb : ScreenBuffer} (x : Int) (hv : c.InView) (hs : sb.Sized ∧ sb.viewport.Inside sb.size)
    (hview : sb.viewport = c.sb.viewport) :
    AtLeft c (Console.moveTo { c with sb := sb } ⟨x, c.state.position.y⟩).applyTerminalLineFeed := by
  obtain ⟨h1, h2, h3, h4, h5⟩ := lineFeed_atLeft (c := Console.moveTo { c with sb := sb } ⟨x, c.state.position.y⟩) hs.1 hs.2
    (by change sb.viewport.rect.top ≤ _; rw [hview]; exact hv.top)
    (by change _ ≤ sb.viewport.rect.bottom; rw [hview]; exact hv.bottom)
  exact ⟨h1.trans hview, h2, h3.trans (by rw [← hview]; rfl), by rw [← hview]; exact h4, by rw [← hview]; exact h5⟩

/-- The console after a line feed behind what has been written, and the same in front of the next character. -/
theorem lineFeed_advance {sb sb' : ScreenBuffer} {x : Int} (h : c.Alike c') (hv : c.InView) (hp : c.state.pendingWrap = false)
    (hsb : sb.Alike sb') (hview : sb.viewport = c.sb.viewport) (hch : c.sb.viewport.rect.right < x + widthColumns cw ch - 1)
    (hfit : c.sb.viewport.rect.left + widthColumns cw ch - 1 ≤ c.sb.viewport.rect.right) :
    ∃ c₁, (Console.moveTo { c with sb := sb } ⟨x, c.state.position.y⟩).applyTerminalLineFeed.Alike c₁ ∧
      AtLeft c (Console.moveTo { c with sb := sb } ⟨x, c.state.position.y⟩).applyTerminalLineFeed ∧
      putChar cw (c'.advance sb' x) ch = putChar cw c₁ ch := by
  have hview' : sb'.viewport = c'.sb.viewport := by
    rw [hsb.same_size.2, hview, h.sb.same_size.2]
  have hy : c.state.position.y = c'.state.position.y := by rw [h.state]
  -- the cursor after `advance` differs at most in its column, on which the line feed does not depend
  obtain ⟨x', hstate, hx'⟩ : ∃ x', ((c'.advance sb' x).setWrap false) =
      Console.moveTo { c' with sb := sb', state := { c'.state with pendingWrap := false } } ⟨x', c.state.position.y⟩ ∧
      ((c'.advance sb' x).state.pendingWrap = true ∧ (c'.advance sb' x).state.position.x = c'.sb.viewport.rect.right ∨
        (c'.advance sb' x).state.position.x = x) := by
    unfold advance
    rw [hy]
    dsimp only
    split_ifs
    · exact ⟨c'.sb.viewport.rect.right, rfl, .inl ⟨rfl, rfl⟩⟩
    · exact ⟨x, rfl, .inr rfl⟩
  have hsame : (Console.moveTo { c with sb := sb } ⟨x, c.state.position.y⟩).Alike
      (Console.moveTo { c' with sb := sb', state := { c'.state with pendingWrap := false } } ⟨x, c.state.position.y⟩) :=
    ⟨by simp only [moveTo, ← h.state, ← hp], hsb⟩
  have hleft {c₀ : Console} (hs : c₀.sb.Sized ∧ c₀.sb.viewport.Inside c₀.sb.size) (hv₀ : c₀.sb.viewport = c.sb.viewport)
      (hy₀ : c₀.state.position.y = c.state.position.y) : AtLeft c₀ c₀.applyTerminalLineFeed :=
    lineFeed_atLeft hs.1 hs.2 (by rw [hv₀, hy₀]; exact hv.top) (by rw [hv₀, hy₀]; exact hv.bottom)
  refine ⟨((c'.advance sb' x).setWrap false).applyTerminalLineFeed, ?_, ?_, ?_⟩
  · rw [hstate]
    exact hsame.lineFeed
  · exact lineFeed_row x hv hsb.sized hview
  · have hviewAdv : (c'.advance sb' x).sb.viewport = c.sb.viewport := by
      rw [← hview, ← hsb.same_size.2]
      unfold advance
      dsimp only
      split_ifs <;> rfl
    refine putChar_wrapped (by rw [hviewAdv]; exact hfit) ?_ ?_
    · refine hleft ?_ hviewAdv ?_
      · rw [hstate]
        exact hsb.symm.sized
      · rw [hstate]
        rfl
    · unfold wrapFor
      dsimp only
      rw [if_pos]
      rw [hviewAdv]
      rcases hx' with ⟨hpend, hx'⟩ | hx'
      · exact .inl ⟨hpend, by rw [hx', h.sb.same_size.2]⟩
      · exact .inr (by rw [hx']; omega)

/-- Every turn of the loop writes a row or goes to the left edge of the next one. -/
theorem applyTerminalTextLoop_some (cw : Char32 → Int) : ∀ (n : Nat) {text : List Char32} {c c' : Console}, c.Alike c' →
    c.InView → c.state.pendingWrap = false → c.sb.viewport.rect = view → Fits cw view text →
    2 * text.length + (if c.state.position.x = view.left then 0 else 1) ≤ n →
    ∃ r, applyTerminalTextLoop cw view n text c = some ([], r) ∧ r.Alike (text.foldl (putChar cw) c') ∧ r.InView ∧
      r.sb.viewport = c.sb.viewport
  | n, [], c, c', h, hv, _, _, _, _ => ⟨c, loop_nil n, h, hv, rfl⟩
  | 0, ch :: rest, _, _, _, _, _, _, _, hn => by simp at hn
  | n + 1, ch :: rest, c, c', h, hv, hp, hview, hfits, hn => by
    obtain ⟨k, hk, sb, sb', hsb, hsbv, hx, hstop, hfold, hturn⟩ :=
      loop_turn cw h hv hp (List.cons_ne_nil ch rest) hview n
    generalize hxk : c.state.position.x + (cols (((ch :: rest).take k).map (glyphOf cw)) : Int) = x at *
    have hall : (ch :: rest).foldl (putChar cw) c' = ((ch :: rest).drop k).foldl (putChar cw) (c'.advance sb' x) := by
      rw [← hfold, ← List.foldl_append, List.take_append_drop]
    rw [hturn]
    rcases hrest : (ch :: rest).drop k with _ | ⟨ch₂, rest₂⟩
    · rw [if_pos rfl, hall, hrest]
      refine ⟨_, rfl, h.advance hsb _, advance_inView hv hsbv (by omega), ?_⟩
      rw [← hsbv]
      unfold advance
      dsimp only
      split_ifs <;> rfl
    · have hmem {x : Char32} (hx : x ∈ ch₂ :: rest₂) : x ∈ ch :: rest := List.mem_of_mem_drop (hrest ▸ hx)
      obtain ⟨c₁, halike, hleft, hput⟩ := lineFeed_advance h hv hp hsb hsbv (by rw [hview]; exact hstop ch₂ rest₂ hrest)
        (by rw [hview]; exact hfits ch₂ (hmem List.mem_cons_self))
      have hlen := congrArg List.length hrest
      rw [List.length_drop] at hlen
      have hfuel : 2 * (ch₂ :: rest₂).length ≤ n := by
        rcases Nat.eq_zero_or_pos k with rfl | hk0
        · -- nothing has been written: the cursor was not at the left edge
          have hfirst := hstop ch rest rfl
          have hroom := hfits ch List.mem_cons_self
          rw [List.take_zero, List.map_nil, cols_nil] at hxk
          rw [if_neg (by omega)] at hn
          omega
        · rw [List.length_cons] at hn hlen
          omega
      have hv₁ := hleft.x
      have hlr := Int.le_trans hv.left hv.right
      obtain ⟨r, hr, hralike, hrview, hrv⟩ := @applyTerminalTextLoop_some cw n (ch₂ :: rest₂) _ _ halike
        (hleft.inView hlr) (hleft.pendingWrap.trans hp) (by rw [hleft.viewport, hview])
        (fun x hx => hfits x (hmem hx)) (by rw [if_pos (hv₁.trans (by rw [hview])), Nat.add_zero]; exact hfuel)
      rw [if_neg (List.cons_ne_nil _ _), hall, hrest, List.foldl_cons, hput]
      exact ⟨r, hr, hralike, hrview, hrv.trans hleft.viewport⟩

/-! ## The whole text -/

theorem Alike.clampCursor (h : c.Alike c') : c.clampCursor.Alike c'.clampCursor := by
  unfold Console.clampCursor
  rw [h.sb.same_size.2, h.state]
  exact ⟨by simp only [moveTo, h.state], h.sb⟩

theorem clampCursor_inView (hin : c.sb.viewport.Inside c.sb.size) : c.clampCursor.InView :=
  ⟨le_clamp hin.leftRight, clamp_le hin.leftRight, le_clamp hin.topBottom, clamp_le hin.topBottom⟩

theorem clampCursor_of_inView (h : c.InView) : c.clampCursor = c := by
  unfold clampCursor
  dsimp only
  rw [clamp_of_mem h.left h.right, clamp_of_mem h.top h.bottom]
  rfl

/-- The loop starts in the viewport, with no wrap that waits. -/
theorem startText_inView (h : c.Alike c') (hne : text ≠ []) : (c.startText text).Alike (c'.startText text) ∧
    (c.startText text).InView ∧ (c.startText text).state.pendingWrap = false ∧
      (c.startText text).sb.viewport = c.sb.viewport := by
  obtain ⟨hsized, hin⟩ := h.sb.sized
  have hv := clampCursor_inView hin
  have hclamp := h.clampCursor
  have hwrap : (c.clampCursor.setWrap false).Alike (c'.clampCursor.setWrap false) :=
    ⟨by simp only [setWrap, hclamp.state], hclamp.sb⟩
  unfold startText
  dsimp only
  rw [if_neg hne, if_neg hne, ← hclamp.state, h.sb.same_size.2]
  split_ifs
  · have hleft : AtLeft (c.clampCursor.setWrap false) (c.clampCursor.setWrap false).applyTerminalLineFeed :=
      lineFeed_atLeft hsized hin hv.top hv.bottom
    exact ⟨hwrap.lineFeed, hleft.inView hin.leftRight, hleft.pendingWrap, hleft.viewport⟩
  · exact ⟨hwrap, ⟨hv.left, hv.right, hv.top, hv.bottom⟩, rfl, rfl⟩

/-- A wrap that waits is done before the first character. -/
theorem putChar_startText (hsized : c.sb.Sized) (hin : c.sb.viewport.Inside c.sb.size)
    (hfit : c.sb.viewport.rect.left + widthColumns cw ch - 1 ≤ c.sb.viewport.rect.right) :
    putChar cw c.clampCursor ch = putChar cw (c.startText (ch :: text)) ch := by
  have hv := clampCursor_inView hin
  unfold startText
  dsimp only
  rw [if_neg (List.cons_ne_nil ch text)]
  split_ifs with hpend
  · refine putChar_wrapped (c := c.clampCursor) hfit
      (lineFeed_atLeft (c := c.clampCursor.setWrap false) hsized hin hv.top hv.bottom) ?_
    unfold wrapFor
    dsimp only
    rw [if_pos (.inl ⟨hpend.1, hpend.2⟩)]
  · have hpend' : ¬ (c.clampCursor.state.pendingWrap ∧
        c.clampCursor.state.position.x = c.clampCursor.sb.viewport.rect.right) := hpend
    rw [putChar, putChar]
    congr 1
    unfold wrapFor
    dsimp only
    simp only [hpend', false_or]
    simp [setWrap]

/-- `apply_terminal_text` puts the characters one after the other. -/
theorem applyTerminalText_some (h : c.Alike c') (hfits : Fits cw c.sb.viewport.rect text) {n : Nat}
    (hn : 2 * text.length + 1 ≤ n) : ∃ r, applyTerminalText cw n text c = some ([], r) ∧
      r.Alike (text.foldl (putChar cw) c'.clampCursor) ∧ r.InView ∧ r.sb.viewport = c.sb.viewport := by
  unfold applyTerminalText
  rcases text with _ | ⟨ch, text⟩
  · exact ⟨c.clampCursor, loop_nil n, h.clampCursor, clampCursor_inView h.sb.sized.2, rfl⟩
  · obtain ⟨halike, hv, hp, hview⟩ := startText_inView h (List.cons_ne_nil ch text)
    obtain ⟨r, hr, hralike, hrv, hrview⟩ := applyTerminalTextLoop_some cw n halike hv hp (by rw [hview]) hfits
      (by split <;> omega)
    obtain ⟨hsized, hin⟩ := h.sb.symm.sized
    rw [List.foldl_cons, putChar_startText hsized hin (by rw [h.sb.same_size.2]; exact hfits ch List.mem_cons_self)]
    exact ⟨r, hr, hralike, hrv, hrview.trans hview⟩

/-- A character that is wider than the viewport: no turn of the loop takes it. -/
theorem applyTerminalTextLoop_none (cw : Char32 → Int) : ∀ (n : Nat) {text : List Char32} {c : Console}, c.Alike c →
    c.InView → c.state.pendingWrap = false → c.sb.viewport.rect = view → ¬ Fits cw view text →
    applyTerminalTextLoop cw view n text c = none
  | _, [], _, _, _, _, _, hfits => absurd (fun _ h => absurd h List.not_mem_nil) hfits
  | 0, _ :: _, _, _, _, _, _, _ => rfl
  | n + 1, ch :: rest, c, h, hv, hp, hview, hfits => by
    obtain ⟨k, hk, sb, sb', hsb, hsbv, hx, hstop, -, hturn⟩ :=
      loop_turn cw h hv hp (List.cons_ne_nil ch rest) hview n
    generalize hxk : c.state.position.x + (cols (((ch :: rest).take k).map (glyphOf cw)) : Int) = x at *
    have hl := hv.left
    have hr := hv.right
    rw [hview] at hl hr
    -- what has been taken fits, so the wide character is still there
    have htake : Fits cw view ((ch :: rest).take k) := by
      intro ch' hch'
      obtain ⟨pre, post, hsplit⟩ := List.append_of_mem hch'
      have hg := cols_glyphOf cw ch'
      rw [hsplit, List.map_append, cols_append, List.map_cons, cols_cons] at hxk
      push_cast at hxk
      omega
    have hdrop : ¬ Fits cw view ((ch :: rest).drop k) := by
      intro hd
      refine hfits fun ch' hch' => ?_
      rw [← List.take_append_drop k (ch :: rest)] at hch'
      exact (List.mem_append.mp hch').elim (htake ch') (hd ch')
    have hne : (ch :: rest).drop k ≠ [] := fun hnil => hdrop (hnil ▸ fun _ h => absurd h List.not_mem_nil)
    have hleft := lineFeed_row x hv hsb.sized hsbv
    have hself : (Console.moveTo { c with sb := sb } ⟨x, c.state.position.y⟩).Alike
        (Console.moveTo { c with sb := sb } ⟨x, c.state.position.y⟩) := ⟨rfl, .refl hsb.sized.1 hsb.sized.2⟩
    rw [hturn, if_neg hne]
    exact applyTerminalTextLoop_none cw n hself.lineFeed (hleft.inView (Int.le_trans hv.left hv.right))
      (hleft.pendingWrap.trans hp) (by rw [hleft.viewport, hview]) hdrop

/-- `apply_terminal_text` does not end with such a character. -/
theorem applyTerminalText_none (hsized : c.sb.Sized) (hin : c.sb.viewport.Inside c.sb.size)
    (hfits : ¬ Fits cw c.sb.viewport.rect text) (n : Nat) : applyTerminalText cw n text c = none := by
  have hne : text ≠ [] := fun hnil => hfits (hnil ▸ fun _ h => absurd h List.not_mem_nil)
  obtain ⟨halike, hv, hp, hview⟩ := startText_inView (Alike.refl hsized hin) hne
  exact applyTerminalTextLoop_none cw n halike hv hp (by rw [hview]) hfits

/-- A text fits when the viewport has two columns or no character is wide. -/
theorem fits_iff (hlr : view.left ≤ view.right) :
    Fits cw view text ↔ view.left < view.right ∨ ∀ ch ∈ text, widthColumns cw ch = 1 := by
  constructor
  · intro h
    rcases Int.lt_or_eq_of_le hlr with hlt | heq
    · exact .inl hlt
    · refine .inr fun ch hch => ?_
      have hw := h ch hch
      rcases widthColumns_cases cw ch with h1 | h2 <;> omega
  · intro h ch hch
    rcases widthColumns_cases cw ch with h1 | h2
    · omega
    · rcases h with hlt | hall
      · omega
      · have := hall ch hch
        omega

end Console

open ScreenBuffer (Op run ofSize sim_run sim_ofSize)

/-- `apply_terminal_text` ends, with the whole text consumed, exactly when the
viewport has two columns or no character of the text is two columns wide. -/
theorem apply_terminal_text_ends_iff (cw : Char32 → Int) {sz : Coord} (hx : 1 ≤ sz.x ∧ sz.x ≤ 0x7FFF)
    (hy : 1 ≤ sz.y ∧ sz.y ≤ 0x7FFF) (history : List Op) (state : ConsoleState) (text : List Char32) :
    let c : Console := { state, sb := run (ofSize sz) history }
    (∃ n r, c.applyTerminalText cw n text = some ([], r)) ↔
      c.sb.viewport.rect.left < c.sb.viewport.rect.right ∨ ∀ ch ∈ text, widthColumns cw ch = 1 := by
  intro c
  have hsim := sim_run history (sim_ofSize hx hy)
  rw [← Console.fits_iff hsim.inside.leftRight]
  constructor
  · rintro ⟨n, r, hr⟩
    by_contra hfits
    rw [Console.applyTerminalText_none (c := c) hsim.sized hsim.inside hfits n] at hr
    exact Option.some_ne_none _ hr.symm
  · intro hfits
    obtain ⟨r, hr, -⟩ := Console.applyTerminalText_some (c := c) (.refl hsim.sized hsim.inside) hfits (Nat.le_refl _)
    exact ⟨_, r, hr⟩

/-- A wide character after a narrow one, in two columns. -/
theorem apply_terminal_text_ends_iff_two_columns :
    ∃ n r, ({ sb := run (ofSize ⟨2, 1⟩) [] } : Console).applyTerminalText (fun ch => if ch = 0x4E2D then 2 else 1) n
      [0x61, 0x4E2D] = some ([], r) :=
  (@apply_terminal_text_ends_iff (fun ch => if ch = 0x4E2D then 2 else 1) ⟨2, 1⟩ (by decide) (by decide) [] {}
    [0x61, 0x4E2D]).mpr (by decide)

/-- One wide character, in a buffer of one cell. -/
theorem apply_terminal_text_goes_on :
    ¬ ∃ n r, ({ sb := ofSize ⟨1, 1⟩ } : Console).applyTerminalText (fun ch => if ch = 0x4E2D then 2 else 1) n [0x4E2D] =
      some ([], r) := by
  rintro ⟨n, r, hr⟩
  have hsim := @sim_ofSize ⟨1, 1⟩ (by decide) (by decide)
  rw [Console.applyTerminalText_none (c := { sb := ofSize ⟨1, 1⟩ }) hsim.sized hsim.inside
    (fun hfits => absurd (hfits 0x4E2D List.mem_cons_self) (by decide)) n] at hr
  exact Option.some_ne_none _ hr.symm

/-- A text leaves the same screen, cursor and wrap when it is written in two
parts, wherever it is cut. -/
theorem apply_terminal_text_append (cw : Char32 → Int) {sz : Coord} (hx : 1 ≤ sz.x ∧ sz.x ≤ 0x7FFF)
    (hy : 1 ≤ sz.y ∧ sz.y ≤ 0x7FFF) (history : List Op) (state : ConsoleState) (a b : List Char32)
    (hcols : (run (ofSize sz) history).viewport.rect.left < (run (ofSize sz) history).viewport.rect.right) {n : Nat}
    (hn : 2 * (a ++ b).length + 1 ≤ n) :
    let c : Console := { state, sb := run (ofSize sz) history }
    ∃ r₁ r₂ r, c.applyTerminalText cw n a = some ([], r₁) ∧ r₁.applyTerminalText cw n b = some ([], r₂) ∧
      c.applyTerminalText cw n (a ++ b) = some ([], r) ∧ r.state = r₂.state ∧ r.sb.size = r₂.sb.size ∧
      r.sb.viewport = r₂.sb.viewport ∧ ∀ y : Int, y < r.sb.size.y → (r.sb.row y).visible = (r₂.sb.row y).visible := by
  intro c
  have hsim := sim_run history (sim_ofSize hx hy)
  have hself : c.Alike c := .refl hsim.sized hsim.inside
  have hfits (text : List Char32) : Console.Fits cw c.sb.viewport.rect text :=
    (Console.fits_iff hsim.inside.leftRight).mpr (.inl hcols)
  rw [List.length_append] at hn
  obtain ⟨r₁, hr₁, halike₁, hv₁, hview₁⟩ := Console.applyTerminalText_some hself (hfits a) (n := n) (by omega)
  obtain ⟨r₂, hr₂, halike₂, -, -⟩ := Console.applyTerminalText_some halike₁ (by rw [hview₁]; exact hfits b) (n := n) (by omega)
  obtain ⟨r, hr, halike, -, -⟩ := Console.applyTerminalText_some hself (hfits (a ++ b)) (n := n)
    (by rw [List.length_append]; omega)
  -- the cursor is in the viewport after the first part
  have hclamp : (a.foldl (Console.putChar cw) c.clampCursor).clampCursor = a.foldl (Console.putChar cw) c.clampCursor := by
    refine Console.clampCursor_of_inView ⟨?_, ?_, ?_, ?_⟩ <;> rw [← halike₁.state, halike₁.sb.same_size.2]
    · exact hv₁.left
    · exact hv₁.right
    · exact hv₁.top
    · exact hv₁.bottom
  rw [hclamp, ← List.foldl_append] at halike₂
  refine ⟨r₁, r₂, r, hr₁, hr₂, hr, halike.state.trans halike₂.state.symm, ?_, ?_, fun y hy' => ?_⟩
  · rw [← halike.sb.same_size.1, halike₂.sb.same_size.1]
  · rw [← halike.sb.same_size.2, halike₂.sb.same_size.2]
  · rw [halike.sb.visible_eq hy', halike₂.sb.visible_eq (by rw [← halike₂.sb.same_size.1, halike.sb.same_size.1]; exact hy')]

/-- A wide character behind one that leaves a single column, and at the right edge. -/
theorem apply_terminal_text_append_edge :
    let c : Console := { sb := run (ofSize ⟨3, 2⟩) [] }
    let cw : Char32 → Int := fun ch => if ch = 0x4E2D then 2 else 1
    ∃ r₁ r₂ r, c.applyTerminalText cw 9 [0x61, 0x62] = some ([], r₁) ∧ r₁.applyTerminalText cw 9 [0x4E2D, 0x63] = some ([], r₂) ∧
      c.applyTerminalText cw 9 [0x61, 0x62, 0x4E2D, 0x63] = some ([], r) ∧ r.state = r₂.state := by
  intro c cw
  obtain ⟨r₁, r₂, r, h₁, h₂, h, hstate, -⟩ := @apply_terminal_text_append cw ⟨3, 2⟩ (by decide) (by decide) [] {}
    [0x61, 0x62] [0x4E2D, 0x63] (by decide) 9 (by decide)
  exact ⟨r₁, r₂, r, h₁, h₂, h, hstate⟩

end Corehost
