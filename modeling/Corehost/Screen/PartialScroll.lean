import Corehost.Lib.Margins
import Corehost.Screen.Frame
import Corehost.Screen.Rect
import Corehost.Vt.Repaint
import Corehost.Vt.RoundTrip

/-!
# A scroll on the terminal

The model of `send_partial_scroll` (`api_handlers.hpp`), and a terminal that
executes what it sends. `TerminalScreen` has the cells that the terminal shows,
its margins, cursor and pen; `execute` is what a DEC terminal does with the
messages of a scroll.

* `received_scroll`: the characters sent are read as the messages meant;
* `lines_scroll`: the lines slide between the margins;
* `partial_scroll_shown_iff`: when the terminal shows what `screen_buffer::scroll`
  makes of the same cells.
-/

namespace Corehost

open Lib Lib.Transducer
open ScreenBufferRow (Cell)

/-- `CONSOLE_SCROLLSCREENBUFFER_MSG`, without the fill. -/
structure ScrollRequest where
  scrollRectangle : SmallRect
  clipRectangle : SmallRect
  clip : Bool
  destinationOrigin : Coord
deriving DecidableEq, Repr

namespace ScrollRequest

variable (r : ScrollRequest) (s : ScreenBuffer)

/-- The lambda `clamp` of the source. -/
def clampTo (a bounds : SmallRect) : SmallRect :=
  ⟨max a.left bounds.left, max a.top bounds.top, min a.right bounds.right, min a.bottom bounds.bottom⟩

def buffer : SmallRect := ⟨0, 0, s.size.x - 1, s.size.y - 1⟩

def src : SmallRect := clampTo r.scrollRectangle (buffer s)

def clipTo : SmallRect := if r.clip then clampTo r.clipRectangle (buffer s) else buffer s

def dx : Int := r.destinationOrigin.x - r.scrollRectangle.left

def dy : Int := r.destinationOrigin.y - r.scrollRectangle.top

def rows : Int := if r.dy < 0 then -r.dy else r.dy

def top : Int := max (min (r.src s).top ((r.src s).top + r.dy)) (r.clipTo s).top

def bottom : Int := min (max (r.src s).bottom ((r.src s).bottom + r.dy)) (r.clipTo s).bottom

/-- `whole_rows`. -/
def wholeRows (fillChar : Char32) (fillAttr : UInt16) : Bool :=
  r.dx = 0 && r.dy ≠ 0 && (r.src s).left = 0 && (r.src s).right = s.size.x - 1 && (r.clipTo s).left = 0 &&
    (r.clipTo s).right = s.size.x - 1 && (r.clipTo s).top ≤ (r.src s).top && (r.src s).bottom ≤ (r.clipTo s).bottom &&
    r.rows ≤ (r.src s).bottom - (r.src s).top + 1 && r.top s < r.bottom s && fillChar == 0x20 && fillAttr &&& 0xFF00 == 0

/-- Nothing is left of the source or of the clip. -/
def isEmpty : Bool :=
  (r.src s).left > (r.src s).right || (r.src s).top > (r.src s).bottom || (r.clipTo s).left > (r.clipTo s).right ||
    (r.clipTo s).top > (r.clipTo s).bottom

end ScrollRequest

/-- The lambda `repaint`: the rows of an area inside the clip. -/
def repaintArea (s : ScreenBuffer) (clip : SmallRect) (out : List Char32 × UInt16) (area : SmallRect) : List Char32 × UInt16 :=
  let area := ScrollRequest.clampTo area clip
  ((List.range (area.bottom - area.top + 1).toNat).map fun (k : Nat) => area.top + k).foldl (fun out y =>
    let (cells, lastAttr) := s.vtRepaintCells y area.left area.right out.2
    (out.1 ++ cells, lastAttr)) out

/-- The lambda `shift`. -/
def shiftShort (v by_ : Int) : Int := clamp (v + by_) (-0x8000) 0x7FFF

/-- What `send_partial_scroll` sends: `s` is the buffer after the scroll,
`margins` are the margins of the application. -/
def sendPartialScroll (s : ScreenBuffer) (margins : Int × Int) (r : ScrollRequest) (fillChar : Char32) (fillAttr : UInt16) :
    List Char32 :=
  if r.isEmpty s then []
  else
    vtMsgSend .saveCursor .none ++
    (if r.wholeRows s fillChar fillAttr then
      vtWriteAttr fillAttr ++
      vtMsgSend .setScrollingRegion (.scrollRegion (i16 (r.top s + 1)) (i16 (r.bottom s + 1))) ++
      vtMsgSend .cursorPosition (.position (i16 (r.top s + 1)) 1) ++
      vtMsgSend (if r.dy > 0 then .insertLines else .deleteLines) (.count (i16 (min r.rows (r.bottom s - r.top s + 1)))) ++
      vtMsgSend .setScrollingRegion (.scrollRegion margins.1 margins.2)
    else
      let src := r.src s
      let out := repaintArea s (r.clipTo s) ([], 0xFFFF) src
      (repaintArea s (r.clipTo s) out ⟨shiftShort src.left r.dx, shiftShort src.top r.dy, shiftShort src.right r.dx,
        shiftShort src.bottom r.dy⟩).1) ++
    vtMsgSend .restoreCursor .none

/-! ## The terminal -/

/-- A terminal. The numbers of lines and columns count from 0, and the pen is an attribute word. -/
structure TerminalScreen where
  lines : List (List Cell)
  width : Nat
  row : Nat := 0
  col : Nat := 0
  top : Nat := 0
  bottom : Nat
  pen : UInt16 := 0x07
  saved : Nat × Nat × UInt16 := (0, 0, 0x07)

namespace TerminalScreen

/-- A line of spaces in the pen. -/
def blankLine (t : TerminalScreen) : List Cell := List.replicate t.width ⟨[0x20], 1, ⟨t.pen⟩⟩

/-- The messages of a scroll. Other messages are not executed. -/
def execute (t : TerminalScreen) : VtMessageId × VtPayload → TerminalScreen
  | (.saveCursor, _) => { t with saved := (t.row, t.col, t.pen) }
  | (.restoreCursor, _) => { t with row := t.saved.1, col := t.saved.2.1, pen := t.saved.2.2 }
  | (.sgr, .sgr m) => { t with pen := applySgrToAttributes m t.pen }
  | (.setScrollingRegion, .scrollRegion top bottom) =>
    let top := if top ≤ 0 then 0 else top - 1
    let bottom := if bottom ≤ 0 ∨ bottom > t.lines.length then (t.lines.length : Int) - 1 else bottom - 1
    if top < bottom then { t with top := top.toNat, bottom := bottom.toNat, row := 0, col := 0 } else t
  | (.cursorPosition, .position row col) =>
    { t with row := min (row - 1).toNat (t.lines.length - 1), col := min (col - 1).toNat (t.width - 1) }
  | (.insertLines, .count n) =>
    if t.top ≤ t.row ∧ t.row ≤ t.bottom then
      { t with lines := Lib.insertLines t.lines t.row t.bottom n.toNat t.blankLine, col := 0 }
    else t
  | (.deleteLines, .count n) =>
    if t.top ≤ t.row ∧ t.row ≤ t.bottom then
      { t with lines := Lib.deleteLines t.lines t.row t.bottom n.toNat t.blankLine, col := 0 }
    else t
  | _ => t

/-- The terminal after it has received the characters. -/
def receive (t : TerminalScreen) (s : List Char32) : TerminalScreen := (received s).foldl execute t

/-- Lines of `w` cells, `h` of them. -/
def cellGrid (w h : Nat) (f : Int → Int → Cell) : List (List Cell) :=
  (List.range h).map fun (y : Nat) => (List.range w).map fun (x : Nat) => f x y

/-- Cell by cell, the terminal shows the screen buffer. -/
structure Shows (t : TerminalScreen) (s : ScreenBuffer) : Prop where
  width : t.width = s.size.x.toNat
  lines : t.lines = cellGrid s.size.x.toNat s.size.y.toNat s.cellAt

end TerminalScreen

namespace TerminalScreen

variable {w h : Nat} {f g : Int → Int → Cell}

theorem length_cellGrid : (cellGrid w h f).length = h := by simp [cellGrid]

theorem getElem?_cellGrid {i : Nat} (hi : i < h) :
    (cellGrid w h f)[i]? = some ((List.range w).map fun (x : Nat) => f x i) := by
  simp [cellGrid, hi]

theorem cellGrid_eq_iff : cellGrid w h f = cellGrid w h g ↔ ∀ x y : Int, 0 ≤ x ∧ x < w → 0 ≤ y ∧ y < h → f x y = g x y := by
  have hcell {α : Type} (n : Nat) (a b : Nat → α) : (List.range n).map a = (List.range n).map b ↔ ∀ i < n, a i = b i := by
    simp [List.map_inj_left]
  rw [cellGrid, cellGrid, hcell]
  simp only [hcell]
  constructor
  · intro hall x y hx hy
    have := hall y.toNat (by omega) x.toNat (by omega)
    rwa [Int.toNat_of_nonneg hx.1, Int.toNat_of_nonneg hy.1] at this
  · exact fun hall y hy x hx => hall x y (by omega) (by omega)

/-- Lines that slide, cell by cell. -/
theorem cellGrid_of_slid {lo hi d : Int} {blank : Cell} {ls : List (List Cell)}
    (hs : Slid lo hi d (· = List.replicate w blank) (cellGrid w h f) ls)
    (hg : ∀ x y : Int, 0 ≤ x ∧ x < w → 0 ≤ y ∧ y < h → g x y =
      if lo ≤ y ∧ y ≤ hi then if lo ≤ y - d ∧ y - d ≤ hi then f x (y - d) else blank else f x y)
    (hlo : 0 ≤ lo) (hhi : hi < h) : ls = cellGrid w h g := by
  refine List.ext_getElem? fun i => ?_
  rcases Nat.lt_or_ge i h with hi' | hi'
  · have hline := hs.2 i (by rwa [length_cellGrid])
    have hrow : (List.range w).map (fun (x : Nat) => g x i) = (List.range w).map fun (x : Nat) =>
        if lo ≤ (i : Int) ∧ (i : Int) ≤ hi then if lo ≤ (i : Int) - d ∧ (i : Int) - d ≤ hi then f x (i - d) else blank
        else f x i :=
      List.map_congr_left fun x hx => hg x i (by have := List.mem_range.mp hx; omega) (by omega)
    rw [getElem?_cellGrid hi', hrow]
    split_ifs at hline ⊢ with h1 h2
    · rw [hline, getElem?_cellGrid (by omega), Int.toNat_of_nonneg (by omega)]
    · obtain ⟨line, hl, rfl⟩ := hline
      rw [hl]
      simp
    · rw [hline, getElem?_cellGrid hi']
  · rw [List.getElem?_eq_none (by rw [hs.1, length_cellGrid]; exact hi'),
      List.getElem?_eq_none (by rw [length_cellGrid]; exact hi')]

end TerminalScreen

/-! ## What the terminal receives -/

namespace PartialScroll

open RoundTrip

/-- The characters are one message, and leave the parser as it was. -/
def Sends (s : List Char32) (m : VtMessageId × VtPayload) : Prop :=
  ∃ e : Emitted, e.seen = m ∧ e.id ≠ .continueText ∧ run VtParser.charStep {} s = ([e], {})

theorem sends_csi {body : List Char32} (hb : ∀ ch ∈ body, isCsiBody ch = true) {final : Char32}
    (hf : classifyCsiChar final = .final) {id : VtMessageId} {msg : VtMessage}
    (hd : dispatchCsi (body.foldl CsiParams.read {}).addParam final {} = (id, msg)) (hid : id ≠ .continue_)
    (hid' : id ≠ .continueText) :
    Sends (0x1B :: 0x5B :: (body ++ [final])) (id, if id.carries then msg.payload else .none) := by
  have hrun := VtParser.run_csi VtParser.steady_new rfl hb hf
  rw [hd, VtParser.csiMessage, if_neg hid] at hrun
  exact ⟨_, rfl, hid', hrun⟩

theorem sends_numbers {vs : List Int} (hne : vs ≠ []) (hv : ∀ v ∈ vs, 0 ≤ v) (hs : ∀ v ∈ vs, IsShort v)
    {final : Char32} (hf : classifyCsiChar final = .final) {id : VtMessageId} {msg : VtMessage}
    (hd : dispatchCsi (CsiParams.ofValues vs) final {} = (id, msg)) (hid : id ≠ .continue_) (hid' : id ≠ .continueText) :
    Sends (0x1B :: 0x5B :: (joinParams (vs.map vtAppendInt) ++ [final])) (id, if id.carries then msg.payload else .none) :=
  sends_csi (CsiParams.isCsiBody_joinParams (vtAppendInt_isDigit hv)) hf (by rw [read_numbers hne hv hs, hd]) hid hid'

theorem sends_cursor : Sends (vtMsgSend .saveCursor .none) (.saveCursor, .none) ∧
    Sends (vtMsgSend .restoreCursor .none) (.restoreCursor, .none) :=
  ⟨⟨⟨.saveCursor, {}, chars ['\x1b', '7']⟩, rfl, by decide, by decide⟩,
    ⟨⟨.restoreCursor, {}, chars ['\x1b', '8']⟩, rfl, by decide, by decide⟩⟩

/-- Messages one after the other. -/
theorem received_flatten : ∀ {pieces : List (List Char32 × VtMessageId × VtPayload)}, (∀ p ∈ pieces, Sends p.1 p.2) →
    received (pieces.map Prod.fst).flatten = pieces.map Prod.snd := by
  intro pieces h
  have hrun : ∀ {ps : List (List Char32 × VtMessageId × VtPayload)}, (∀ p ∈ ps, Sends p.1 p.2) → ∃ es : List Emitted,
      run VtParser.charStep {} (ps.map Prod.fst).flatten = (es, {}) ∧ es.map Emitted.seen = ps.map Prod.snd ∧
        ∀ e ∈ es, e.id ≠ .continueText := by
    intro ps
    induction ps with
    | nil => exact fun _ => ⟨[], rfl, rfl, by simp⟩
    | cons p ps ih =>
      intro h
      obtain ⟨e, he, hid, hp⟩ := h p List.mem_cons_self
      obtain ⟨es, h1, h2, h3⟩ := ih fun q hq => h q (List.mem_cons_of_mem _ hq)
      refine ⟨e :: es, ?_, by rw [List.map_cons, he, h2, List.map_cons], ?_⟩
      · rw [List.map_cons, List.flatten_cons, run_append, hp]
        simp only [h1, List.singleton_append]
      · exact List.forall_mem_cons.mpr ⟨hid, h3⟩
  obtain ⟨es, h1, h2, h3⟩ := hrun h
  rw [received, feed_eq_run (by rw [h1]; exact h3), h1, h2]

theorem toNat_lt_of_and {attr : UInt16} (h : attr &&& 0xFF00 = 0) : attr.toNat < 256 := by
  have h1 : (attr &&& 0xFF00).toNat = 0 := by rw [h]; rfl
  rw [UInt16.toNat_and] at h1
  have h2 : attr.toNat % 256 = attr.toNat &&& 0xFF := (Nat.and_two_pow_sub_one_eq_mod attr.toNat 8).symm
  have h3 : attr.toNat = attr.toNat &&& (0xFF00 ||| 0xFF) := (Nat.and_two_pow_sub_one_of_lt_two_pow attr.toNat_lt).symm
  rw [Nat.and_or_distrib_left] at h3
  have h4 : attr.toNat &&& 0xFF00 = 0 := h1
  rw [h4, Nat.zero_or] at h3
  omega

/-- The message that `vt_write_attr` sends. -/
def attrMessage (attr : UInt16) : VtSgrPayload :=
  match (run VtParser.charStep {} (vtWriteAttr attr)).1 with
  | [e] => e.message.payload.sgrValue
  | _ => {}

/-- The pen is the attribute, whatever it was. -/
theorem sends_attr {attr : UInt16} (h : attr &&& 0xFF00 = 0) :
    Sends (vtWriteAttr attr) (.sgr, .sgr (attrMessage attr)) ∧ ∀ pen, applySgrToAttributes (attrMessage attr) pen = attr := by
  have hall : ∀ a : Fin 256, (run VtParser.charStep {} (vtWriteAttr (UInt16.ofNat a))).2 = {} ∧
      (run VtParser.charStep {} (vtWriteAttr (UInt16.ofNat a))).1.map (fun e => (e.id, e.message.payload)) =
        [(.sgr, .sgr (attrMessage (UInt16.ofNat a)))] ∧
      (attrMessage (UInt16.ofNat a)).has .reset = true ∧
      applySgrToAttributes (attrMessage (UInt16.ofNat a)) 0 = UInt16.ofNat a := by decide +kernel
  have hlt := toNat_lt_of_and h
  have hattr : UInt16.ofNat (⟨attr.toNat, hlt⟩ : Fin 256) = attr := UInt16.ofNat_toNat
  have hall := hall ⟨attr.toNat, hlt⟩
  rw [hattr] at hall
  obtain ⟨h1, h2, h3, h4⟩ := hall
  constructor
  · rcases hrun : run VtParser.charStep {} (vtWriteAttr attr) with ⟨es, p⟩
    rw [hrun] at h1 h2
    obtain ⟨e, rfl⟩ := List.length_eq_one_iff.mp (by simpa using congrArg List.length h2)
    simp only [List.map_cons, List.map_nil, List.cons.injEq, Prod.mk.injEq, and_true] at h2
    obtain rfl : p = {} := h1
    exact ⟨e, by rw [Emitted.seen, h2.1, h2.2]; rfl, by rw [h2.1]; decide, hrun⟩
  · intro pen
    have hpen : applySgrToAttributes (attrMessage attr) pen = applySgrToAttributes (attrMessage attr) 0 := by
      simp only [applySgrToAttributes, h3, if_true]
    exact hpen.trans h4

theorem sends_region {top bottom : Int} (ht : 0 ≤ top ∧ IsShort top) (hb : 0 ≤ bottom ∧ IsShort bottom) :
    Sends (vtMsgSend .setScrollingRegion (.scrollRegion top bottom)) (.setScrollingRegion, .scrollRegion top bottom) := by
  have h := @sends_numbers [top, bottom] (by simp) (by simp [ht.1, hb.1]) (by simp [ht.2, hb.2]) 'r'.toNat rfl _ _
    (dispatchCsi_region ht.2 hb.2) (by decide) (by decide)
  have hcarries : VtMessageId.setScrollingRegion.carries = true := by decide
  simpa [vtMsgSend, VtPayload.scrollRegionValue, chars, joinParams, hcarries] using h

theorem sends_position {row : Int} (h0 : 1 ≤ row) (hs : IsShort row) :
    Sends (vtMsgSend .cursorPosition (.position row 1)) (.cursorPosition, .position row 1) := by
  have h := @sends_numbers [row, 1] (by simp) (by simp; omega) (by simp [hs]; decide) 'H'.toNat rfl _ _
    (dispatchCsi_pair (by omega) (by decide) hs (by decide)) (by decide) (by decide)
  have hrow : i16 (row - 1) + 1 = row := by
    have := hs.2
    rw [i16_of_range] <;> omega
  have hcol : i16 0 + 1 = 1 := by decide
  have hcarries : VtMessageId.cursorPosition.carries = true := by decide
  simpa [vtMsgSend, VtPayload.rowValue, VtPayload.colValue, vtWriteCup, hrow, hcol, chars, joinParams, hcarries] using h

theorem sends_lines {id : VtMessageId} (hid : id = .insertLines ∨ id = .deleteLines) {n : Int} (h0 : 1 ≤ n) (hs : IsShort n) :
    Sends (vtMsgSend id (.count n)) (id, .count n) := by
  rcases hid with rfl | rfl
  · exact @sends_numbers [n] (by simp) (by simp; omega) (by simp [hs]) 'L'.toNat rfl _ _
      (dispatchCsi_count (p := (.insertLines, 'L')) (by decide) (by omega) hs) (by decide) (by decide)
  · exact @sends_numbers [n] (by simp) (by simp; omega) (by simp [hs]) 'M'.toNat rfl _ _
      (dispatchCsi_count (p := (.deleteLines, 'M')) (by decide) (by omega) hs) (by decide) (by decide)

theorem dispatchCsi_margins (c : CsiParams) :
    (dispatchCsi c 'r'.toNat {}).1 = .continue_ ∨ (dispatchCsi c 'r'.toNat {}).1 = .setScrollingRegion := by
  by_cases h : c.csiOverflow = true
  · exact .inl (by rw [dispatchCsi, if_pos h])
  · right
    simp [dispatchCsi, h]

/-- Margins move no line. -/
theorem execute_margins {id : VtMessageId} (h : id = .unknownSequence ∨ id = .setScrollingRegion) (payload : VtPayload)
    (t : TerminalScreen) : (t.execute (id, payload)).lines = t.lines := by
  rcases h with rfl | rfl
  · rfl
  · cases payload with
    | scrollRegion top bottom =>
      dsimp only [TerminalScreen.execute]
      split_ifs <;> rfl
    | _ => rfl

/-- Whatever the margins of the application are, they are one message. -/
theorem sends_margins (top bottom : Int) : ∃ m, Sends (vtMsgSend .setScrollingRegion (.scrollRegion top bottom)) m ∧
    ∀ t : TerminalScreen, (t.execute m).lines = t.lines := by
  have hdigits (n : Nat) : ∀ ch ∈ decimal n, isCsiBody ch = true := fun ch hc => by
    rw [isCsiBody, CsiParams.classifyCsiChar_digit (decimal_isDigit _ ch hc)]
  have hbody : ∀ n : Int, ∀ ch ∈ vtAppendInt n, isCsiBody ch = true := by
    intro n ch hc
    rw [vtAppendInt] at hc
    split_ifs at hc
    · rcases List.mem_cons.mp hc with rfl | hc
      · decide
      · exact hdigits _ ch hc
    · exact hdigits _ ch hc
  have hboth : ∀ ch ∈ vtAppendInt top ++ (0x3B :: vtAppendInt bottom), isCsiBody ch = true := by
    intro ch hc
    rcases List.mem_append.mp hc with hc | hc
    · exact hbody _ _ hc
    · rcases List.mem_cons.mp hc with rfl | hc
      · decide
      · exact hbody _ _ hc
  have hrun := VtParser.run_csi VtParser.steady_new rfl hboth (show classifyCsiChar 'r'.toNat = .final from rfl)
  have hsend : vtMsgSend .setScrollingRegion (.scrollRegion top bottom) =
      0x1B :: 0x5B :: (vtAppendInt top ++ (0x3B :: vtAppendInt bottom) ++ ['r'.toNat]) := by
    simp [vtMsgSend, VtPayload.scrollRegionValue, chars]
  rw [← hsend, VtParser.csiMessage] at hrun
  have hid := dispatchCsi_margins ((vtAppendInt top ++ (0x3B :: vtAppendInt bottom)).foldl CsiParams.read {}).addParam
  generalize dispatchCsi _ _ {} = d at hrun hid
  rcases hid with h | h
  · rw [if_pos h] at hrun
    exact ⟨_, ⟨_, rfl, by simp, hrun⟩, execute_margins (.inl rfl) _⟩
  · rw [if_neg (by rw [h]; decide), h] at hrun
    exact ⟨_, ⟨_, rfl, by simp, hrun⟩, execute_margins (.inr rfl) _⟩

end PartialScroll

open PartialScroll

variable {s : ScreenBuffer} {r : ScrollRequest} {fillChar : Char32} {fillAttr : UInt16}

/-- What the terminal inserts or deletes: the numbers of lines are in range. -/
structure ScrollRequest.Fits (r : ScrollRequest) (s : ScreenBuffer) : Prop where
  top : 0 ≤ r.top s
  lt : r.top s < r.bottom s
  bottom : r.bottom s < s.size.y
  dy : r.dy ≠ 0
  rows : r.rows ≤ r.bottom s - r.top s + 1

theorem ScrollRequest.fits (h : r.wholeRows s fillChar fillAttr = true) : r.Fits s := by
  simp only [ScrollRequest.wholeRows, Bool.and_eq_true, decide_eq_true_eq, beq_iff_eq] at h
  obtain ⟨⟨⟨⟨⟨⟨⟨⟨⟨⟨⟨-, hdy⟩, -⟩, -⟩, -⟩, -⟩, htop⟩, hbottom⟩, hrows⟩, hlt⟩, -⟩, -⟩ := h
  have hsrc : 0 ≤ (r.src s).top ∧ (r.src s).bottom ≤ s.size.y - 1 := by
    simp only [src, clampTo, buffer]; omega
  have hclip : 0 ≤ (r.clipTo s).top ∧ (r.clipTo s).bottom ≤ s.size.y - 1 := by
    simp only [clipTo, clampTo, buffer]; split <;> simp only <;> omega
  refine ⟨?_, hlt, ?_, hdy, ?_⟩
  all_goals simp only [ScrollRequest.top, ScrollRequest.bottom, ScrollRequest.rows] at *; split_ifs at * <;> omega

theorem received_scroll (margins : Int × Int) (hsize : 1 ≤ s.size.y ∧ s.size.y ≤ 0x7FFF) (hr : r.isEmpty s = false)
    (h : r.wholeRows s fillChar fillAttr = true) :
    ∃ m, received (sendPartialScroll s margins r fillChar fillAttr) =
      [(.saveCursor, .none), (.sgr, .sgr (attrMessage fillAttr)),
        (.setScrollingRegion, .scrollRegion (r.top s + 1) (r.bottom s + 1)), (.cursorPosition, .position (r.top s + 1) 1),
        (if r.dy > 0 then .insertLines else .deleteLines, .count r.rows), m, (.restoreCursor, .none)] ∧
      ∀ t : TerminalScreen, (t.execute m).lines = t.lines := by
  obtain ⟨htop, hlt, hbottom, hdy, hrows⟩ := ScrollRequest.fits h
  have hattr : fillAttr &&& 0xFF00 = 0 := by
    simp only [ScrollRequest.wholeRows, Bool.and_eq_true, beq_iff_eq] at h
    exact h.2
  obtain ⟨m, hm, hlines⟩ := sends_margins margins.1 margins.2
  have hpos : 1 ≤ r.rows := by
    simp only [ScrollRequest.rows]; split <;> omega
  have e1 : i16 (r.top s + 1) = r.top s + 1 := i16_of_range (by omega) (by omega)
  have e2 : i16 (r.bottom s + 1) = r.bottom s + 1 := i16_of_range (by omega) (by omega)
  have e3 : i16 (min r.rows (r.bottom s - r.top s + 1)) = r.rows := by
    rw [min_eq_left hrows]
    exact i16_of_range (by omega) (by omega)
  refine ⟨m, ?_, hlines⟩
  have hpieces := @received_flatten
    [(vtMsgSend .saveCursor .none, .saveCursor, .none), (vtWriteAttr fillAttr, .sgr, .sgr (attrMessage fillAttr)),
      (vtMsgSend .setScrollingRegion (.scrollRegion (r.top s + 1) (r.bottom s + 1)), .setScrollingRegion,
        .scrollRegion (r.top s + 1) (r.bottom s + 1)),
      (vtMsgSend .cursorPosition (.position (r.top s + 1) 1), .cursorPosition, .position (r.top s + 1) 1),
      (vtMsgSend (if r.dy > 0 then .insertLines else .deleteLines) (.count r.rows),
        if r.dy > 0 then .insertLines else .deleteLines, .count r.rows),
      (vtMsgSend .setScrollingRegion (.scrollRegion margins.1 margins.2), m),
      (vtMsgSend .restoreCursor .none, .restoreCursor, .none)] ?_
  · rw [sendPartialScroll, if_neg (by simp [hr]), if_pos h, e1, e2, e3]
    simpa using hpieces
  · simp only [List.forall_mem_cons]
    refine ⟨sends_cursor.1, (sends_attr hattr).1, sends_region ⟨by omega, ?_⟩ ⟨by omega, ?_⟩, sends_position (by omega) ?_,
      sends_lines ?_ hpos ?_, hm, sends_cursor.2, by simp⟩
    · constructor <;> omega
    · constructor <;> omega
    · constructor <;> omega
    · split
      · exact .inl rfl
      · exact .inr rfl
    · constructor <;> omega

namespace TerminalScreen

theorem execute_width (t : TerminalScreen) (m : VtMessageId × VtPayload) : (t.execute m).width = t.width := by
  unfold execute
  split <;> first | rfl | (split_ifs <;> rfl) | (dsimp only; split_ifs <;> rfl)

theorem lines_insertLines {t : TerminalScreen} (h : t.top ≤ t.row ∧ t.row ≤ t.bottom) (n : Int) :
    (t.execute (.insertLines, .count n)).lines = Lib.insertLines t.lines t.row t.bottom n.toNat t.blankLine := by
  rw [execute, if_pos h]

theorem lines_deleteLines {t : TerminalScreen} (h : t.top ≤ t.row ∧ t.row ≤ t.bottom) (n : Int) :
    (t.execute (.deleteLines, .count n)).lines = Lib.deleteLines t.lines t.row t.bottom n.toNat t.blankLine := by
  rw [execute, if_pos h]

/-- Margins and cursor, once they are set. -/
theorem foldl_margins {t : TerminalScreen} {msg : VtSgrPayload} {top bottom : Int} (htop : 0 ≤ top) (hlt : top < bottom)
    (hbottom : bottom < t.lines.length) :
    [(.sgr, .sgr msg), (.setScrollingRegion, .scrollRegion (top + 1) (bottom + 1)),
        (.cursorPosition, .position (top + 1) 1)].foldl execute t =
      { t with
        pen := applySgrToAttributes msg t.pen, top := top.toNat, bottom := bottom.toNat, row := top.toNat, col := 0 } := by
  have e1 : ¬ top + 1 ≤ 0 := by omega
  have e2 : ¬ (bottom + 1 ≤ 0 ∨ bottom + 1 > t.lines.length) := by omega
  have e3 : top + 1 - 1 = top := by omega
  have e4 : bottom + 1 - 1 = bottom := by omega
  have e5 : min top.toNat (t.lines.length - 1) = top.toNat := by omega
  simp only [List.foldl_cons, List.foldl_nil, execute, if_neg e1, if_neg e2, e3, e4, if_pos hlt, e5, sub_self,
    Int.toNat_zero, Nat.zero_min]

end TerminalScreen

/-- The lines slide between the margins, and the new ones have the fill's attribute. -/
theorem lines_scroll {t : TerminalScreen} (margins : Int × Int) (hsize : 1 ≤ s.size.y ∧ s.size.y ≤ 0x7FFF)
    (ht : (t.lines.length : Int) = s.size.y) (hr : r.isEmpty s = false) (h : r.wholeRows s fillChar fillAttr = true) :
    Slid (r.top s) (r.bottom s) r.dy (· = List.replicate t.width ⟨[0x20], 1, ⟨fillAttr⟩⟩) t.lines
        (t.receive (sendPartialScroll s margins r fillChar fillAttr)).lines ∧
      (t.receive (sendPartialScroll s margins r fillChar fillAttr)).width = t.width := by
  obtain ⟨htop, hlt, hbottom, hdy, hrows⟩ := ScrollRequest.fits h
  obtain ⟨m, hm, hlines⟩ := received_scroll margins hsize hr h
  have hattr : fillAttr &&& 0xFF00 = 0 := by
    simp only [ScrollRequest.wholeRows, Bool.and_eq_true, beq_iff_eq] at h
    exact h.2
  constructor
  · have hset := @TerminalScreen.foldl_margins (t.execute (.saveCursor, .none)) (attrMessage fillAttr) _ _ htop hlt
      (show r.bottom s < t.lines.length by omega)
    rw [(sends_attr hattr).2] at hset
    simp only [List.foldl_cons, List.foldl_nil] at hset
    rw [TerminalScreen.receive, hm]
    simp only [List.foldl_cons, List.foldl_nil]
    rw [hset]
    change Slid _ _ _ _ _ (TerminalScreen.execute _ m).lines
    rw [hlines]
    have hn : (r.rows.toNat : Int) = if r.dy < 0 then -r.dy else r.dy := by
      simp only [ScrollRequest.rows]; split <;> omega
    have hrow : (r.top s).toNat ≤ (r.bottom s).toNat := by omega
    have hcount : r.rows.toNat ≤ (r.bottom s).toNat + 1 - (r.top s).toNat := by omega
    have hlen : (r.bottom s).toNat < t.lines.length := by omega
    have e1 : ((r.top s).toNat : Int) = r.top s := Int.toNat_of_nonneg htop
    have e2 : ((r.bottom s).toNat : Int) = r.bottom s := Int.toNat_of_nonneg (by omega)
    by_cases hd : r.dy > 0
    · rw [if_pos hd, TerminalScreen.lines_insertLines ⟨le_rfl, hrow⟩]
      have hslid := insertLines_slid (List.replicate t.width (⟨[0x20], 1, ⟨fillAttr⟩⟩ : Cell)) hcount hrow hlen
      rwa [e1, e2, hn, if_neg (by omega)] at hslid
    · rw [if_neg hd, TerminalScreen.lines_deleteLines ⟨le_rfl, hrow⟩]
      have hslid := deleteLines_slid (List.replicate t.width (⟨[0x20], 1, ⟨fillAttr⟩⟩ : Cell)) hcount hrow hlen
      rwa [e1, e2, hn, if_pos (by omega), neg_neg] at hslid
  · have hall : ∀ (ms : List (VtMessageId × VtPayload)) (t : TerminalScreen),
        (ms.foldl TerminalScreen.execute t).width = t.width := by
      intro ms
      induction ms with
      | nil => exact fun _ => rfl
      | cons m ms ih => exact fun t => (ih _).trans (t.execute_width m)
    exact hall _ t

/-! ## The cells after the scroll -/

namespace ScreenBuffer

/-- What the source rectangle and the clip of a scroll are, and what its conditions say of them. -/
theorem clampTo_buffer (h : s.Sized) (a : SmallRect) : ScrollRequest.clampTo a (ScrollRequest.buffer s) = s.clampRect a := by
  have := h.width
  have := h.height
  simp only [ScrollRequest.clampTo, ScrollRequest.buffer, clampRect, SmallRect.mk.injEq]
  refine ⟨?_, ?_, ?_, ?_⟩ <;> split_ifs <;> omega

theorem src_eq (h : s.Sized) (r : ScrollRequest) : r.src s = s.clampRect r.scrollRectangle := clampTo_buffer h _

theorem clipTo_eq (h : s.Sized) (r : ScrollRequest) : r.clipTo s = s.clipRect r.clipRectangle r.clip := by
  rw [ScrollRequest.clipTo, clipRect, clampTo_buffer h]
  rfl

/-- Where whole rows move, the rows between the margins slide. -/
theorem expectedCell_slides (h : s.Sized) {src clip : SmallRect} {dy lo hi : Int}
    (hsrc : src.left = 0 ∧ src.right = s.size.x - 1) (hclip : clip.left = 0 ∧ clip.right = s.size.x - 1)
    (hin : clip.top ≤ src.top ∧ src.bottom ≤ clip.bottom) (hrows : (if dy < 0 then -dy else dy) ≤ src.bottom - src.top + 1)
    (hlo : lo = max (min src.top (src.top + dy)) clip.top) (hhi : hi = min (max src.bottom (src.bottom + dy)) clip.bottom)
    (hlim : 0 ≤ src.top ∧ src.bottom < s.size.y) (cp : Char32) (attr : UInt16) {x y : Int} (hx : 0 ≤ x ∧ x < s.size.x) :
    s.expectedCell src clip 0 dy cp attr x y =
      if lo ≤ y ∧ y ≤ hi then if lo ≤ y - dy ∧ y - dy ≤ hi then s.cellAt x (y - dy) else ⟨[cp], 1, .ofWord attr⟩
      else s.cellAt x y := by
  have hwidth := h.width
  have hiff (u v : Int) : Moves src clip 0 dy u v ↔ (0 ≤ u ∧ u < s.size.x) ∧ (src.top ≤ v ∧ v ≤ src.bottom) ∧
      clip.top ≤ v + dy ∧ v + dy ≤ clip.bottom := by
    simp only [Moves, SmallRect.Has]; omega
  have hfill (u v : Int) : src.Has u v ∧ clip.Has u v ↔ (0 ≤ u ∧ u < s.size.x) ∧ src.top ≤ v ∧ v ≤ src.bottom := by
    simp only [SmallRect.Has]; omega
  have hmoves (u : Int) : Moves src clip 0 dy u (y - dy) ↔
      (0 ≤ u ∧ u < s.size.x) ∧ (lo ≤ y ∧ y ≤ hi) ∧ lo ≤ y - dy ∧ y - dy ≤ hi := by
    rw [hiff]
    split_ifs at hrows <;> omega
  have hwritten (u : Int) : Written src clip 0 dy u y ↔ (0 ≤ u ∧ u < s.size.x) ∧ lo ≤ y ∧ y ≤ hi := by
    rw [Written, hiff, hfill]
    split_ifs at hrows <;> omega
  rw [expectedCell, Int.sub_zero]
  simp only [hmoves, hfill, hwritten]
  by_cases h1 : lo ≤ y ∧ y ≤ hi
  · by_cases h2 : lo ≤ y - dy ∧ y - dy ≤ hi
    · rw [if_pos ⟨hx, h1, h2⟩, if_pos h1, if_pos h2, movedCellAt]
      simp only [hmoves]
      -- no glyph is cut
      obtain ⟨-, -, ⟨hc, -⟩ | ⟨hc, -, hlt, -⟩ | ⟨hc, -, hpos, -⟩⟩ :=
        (showsSome_row h (show y - dy < s.size.y by split_ifs at hrows <;> omega)).cell_cases
          (show x.toNat < s.size.x.toNat by omega)
      all_goals
        have hc' : (s.cellAt x (y - dy)).cols = _ := hc
        exact if_neg (by omega)
    · rw [if_neg fun hm => h2 hm.2.2, if_pos h1, if_neg h2, if_pos (by split_ifs at hrows <;> omega)]
  · rw [if_neg fun hm => h1 hm.2.1, if_neg h1, if_neg (by split_ifs at hrows <;> omega), if_neg (by omega)]

set_option maxRecDepth 4096 in
theorem ofWord_of_and {attr : UInt16} (h : attr &&& 0xFF00 = 0) : TextAttribute.ofWord attr = ⟨attr⟩ := by
  have hall : ∀ a : Fin 256, TextAttribute.ofWord (UInt16.ofNat a) = ⟨UInt16.ofNat a⟩ := by decide
  have hattr : UInt16.ofNat (⟨attr.toNat, toNat_lt_of_and h⟩ : Fin 256) = attr := UInt16.ofNat_toNat
  exact hattr ▸ hall ⟨attr.toNat, toNat_lt_of_and h⟩

variable (r fillChar fillAttr) in
/-- What is sent depends on the size of the buffer, and on nothing else of it. -/
theorem wholeRows_congr {s' : ScreenBuffer} (hsize : s'.size = s.size) :
    r.wholeRows s' fillChar fillAttr = r.wholeRows s fillChar fillAttr ∧ r.isEmpty s' = r.isEmpty s ∧
      r.top s' = r.top s ∧ r.bottom s' = r.bottom s := by
  have hsrc : r.src s' = r.src s := by
    rw [ScrollRequest.src, ScrollRequest.src, ScrollRequest.buffer, ScrollRequest.buffer, hsize]
  have hclip : r.clipTo s' = r.clipTo s := by
    rw [ScrollRequest.clipTo, ScrollRequest.clipTo, ScrollRequest.buffer, ScrollRequest.buffer, hsize]
  have htop : r.top s' = r.top s := by rw [ScrollRequest.top, ScrollRequest.top, hsrc, hclip]
  have hbottom : r.bottom s' = r.bottom s := by rw [ScrollRequest.bottom, ScrollRequest.bottom, hsrc, hclip]
  refine ⟨?_, ?_, htop, hbottom⟩
  · rw [ScrollRequest.wholeRows, ScrollRequest.wholeRows, hsrc, hclip, htop, hbottom, hsize]
  · rw [ScrollRequest.isEmpty, ScrollRequest.isEmpty, hsrc, hclip]

/-- The terminal shows every cell as expected. -/
theorem cells_scroll {s' : ScreenBuffer} {t : TerminalScreen} (h : s.Sized) (hsize : s'.size = s.size) (margins : Int × Int)
    (hw : r.wholeRows s fillChar fillAttr = true) (ht : t.Shows s) :
    (t.receive (sendPartialScroll s' margins r fillChar fillAttr)).width = s.size.x.toNat ∧
      (t.receive (sendPartialScroll s' margins r fillChar fillAttr)).lines =
        TerminalScreen.cellGrid s.size.x.toNat s.size.y.toNat
          (s.expectedCell (r.src s) (r.clipTo s) r.dx r.dy fillChar fillAttr) := by
  have hwidth := h.width
  have hheight := h.height
  obtain ⟨hwhole, hempty, htop, hbottom⟩ := wholeRows_congr r fillChar fillAttr hsize
  have hfits := ScrollRequest.fits hw
  have hconds := id hw
  simp only [ScrollRequest.wholeRows, Bool.and_eq_true, decide_eq_true_eq, beq_iff_eq] at hconds
  obtain ⟨⟨⟨⟨⟨⟨⟨⟨⟨⟨⟨hdx, hdy⟩, hl⟩, hr⟩, hcl⟩, hcr⟩, hin⟩, hin'⟩, hrows⟩, hlt⟩, hchar⟩, hattr⟩ := hconds
  have hlim : 0 ≤ (r.src s).top ∧ (r.src s).bottom < s.size.y := by
    have := clampRect_inside h r.scrollRectangle
    rw [src_eq h]
    exact ⟨this.2.1, this.2.2.2⟩
  have hne : r.isEmpty s' = false := by
    rw [hempty]
    simp only [ScrollRequest.isEmpty, ScrollRequest.rows, Bool.or_eq_false_iff, decide_eq_false_iff_not] at hrows ⊢
    split_ifs at hrows <;> omega
  obtain ⟨hslid, hw'⟩ := lines_scroll (s := s') (t := t) margins (by rw [hsize]; exact hheight)
    (by rw [ht.lines, TerminalScreen.length_cellGrid, hsize]; omega) hne (hwhole.trans hw)
  rw [htop, hbottom, ht.width, ht.lines] at hslid
  refine ⟨hw'.trans ht.width, TerminalScreen.cellGrid_of_slid hslid (fun x y hx hy => ?_) hfits.top ?_⟩
  · rw [hdx, hchar, expectedCell_slides h ⟨hl, hr⟩ ⟨hcl, hcr⟩ ⟨hin, hin'⟩ hrows rfl rfl hlim 0x20 fillAttr (by omega),
      ofWord_of_and hattr]
    rfl
  · have := hfits.bottom
    omega

/-- After any history of calls, where a scroll goes out as lines inserted or
deleted, the terminal shows the scrolled buffer exactly if the clip is the
source, or every moved second half of a glyph has the attribute of the first. -/
theorem partial_scroll_shown_iff {sz : Coord} (hx : 1 ≤ sz.x ∧ sz.x ≤ 0x7FFF) (hy : 1 ≤ sz.y ∧ sz.y ≤ 0x7FFF)
    (history : List Op) (r : ScrollRequest) (fillChar : Char32) (fillAttr : UInt16) (margins : Int × Int)
    (t : TerminalScreen) :
    let s := run (ofSize sz) history
    let s' := s.scroll r.scrollRectangle r.clipRectangle r.clip r.destinationOrigin fillChar fillAttr
    r.wholeRows s fillChar fillAttr = true → t.Shows s →
    ((t.receive (sendPartialScroll s' margins r fillChar fillAttr)).Shows s' ↔
      r.clipTo s = r.src s ∨ ∀ x y, Moves (r.src s) (r.clipTo s) 0 r.dy x y → (s.cellAt x y).cols = 0 →
        (s.cellAt x y).attr = (s.cellAt (x - 1) y).attr) := by
  intro s s' hw ht
  have h : s.Sized := (sim_run history (sim_ofSize hx hy)).sized
  have hexact : (∀ x y, 0 ≤ x ∧ x < s.size.x → 0 ≤ y ∧ y < s.size.y →
        s'.cellAt x y = s.expectedCell (r.src s) (r.clipTo s) r.dx r.dy fillChar fillAttr x y) ↔
      s.WholeRows (r.src s) (r.clipTo s) r.dx r.dy ∨
        ∀ x y, Moves (r.src s) (r.clipTo s) r.dx r.dy x y → s.KeepsCell (r.src s) (r.clipTo s) r.dx r.dy fillAttr x y := by
    rw [src_eq h, clipTo_eq h]
    exact scroll_exact_iff hx hy history _ _ _ r.destinationOrigin fillChar fillAttr
  have hsize : s'.size = s.size := (sameFrame_scroll ..).size
  obtain ⟨hwidth, hlines⟩ := cells_scroll h hsize margins hw ht
  have hshows : (t.receive (sendPartialScroll s' margins r fillChar fillAttr)).Shows s' ↔
      s.WholeRows (r.src s) (r.clipTo s) r.dx r.dy ∨
        ∀ x y, Moves (r.src s) (r.clipTo s) r.dx r.dy x y → s.KeepsCell (r.src s) (r.clipTo s) r.dx r.dy fillAttr x y := by
    rw [← hexact]
    have hgrid := TerminalScreen.cellGrid_eq_iff (w := s.size.x.toNat) (h := s.size.y.toNat) (f := s'.cellAt)
      (g := s.expectedCell (r.src s) (r.clipTo s) r.dx r.dy fillChar fillAttr)
    have hw0 := h.width
    have hh0 := h.height
    constructor
    · intro hsh x y hx hy
      have heq := hlines.symm.trans hsh.lines
      rw [hsize] at heq
      exact hgrid.mp heq.symm x y (by omega) (by omega)
    · intro hall
      refine ⟨by rw [hwidth, hsize], ?_⟩
      rw [hlines, hsize]
      exact (hgrid.mpr fun x y hx hy => hall x y (by omega) (by omega)).symm
  have hconds := id hw
  simp only [ScrollRequest.wholeRows, Bool.and_eq_true, decide_eq_true_eq, beq_iff_eq] at hconds
  obtain ⟨⟨⟨⟨⟨⟨⟨⟨⟨⟨⟨hdx, hdy⟩, hl⟩, hr⟩, hcl⟩, hcr⟩, hin⟩, hin'⟩, hrows⟩, hlt⟩, hchar⟩, hattr⟩ := hconds
  rw [hshows, hdx]
  refine or_congr ⟨fun hwr => hwr.2.2.2.2, fun hc => ⟨rfl, hdy, hl, hr, hc⟩⟩ (forall₃_congr fun x y hm => ?_)
  -- both halves of a glyph move with their row
  have hy : y < s.size.y := by
    have := (clampRect_inside h r.scrollRectangle).2.2.2
    rw [← src_eq h] at this
    have := hm.1.2.2
    omega
  have hx : 0 ≤ x ∧ x < s.size.x := by
    have := hm.1.1
    omega
  have hbeside {u : Int} (hu : 0 ≤ u ∧ u < s.size.x) : Moves (r.src s) (r.clipTo s) 0 r.dy u y := by
    obtain ⟨⟨-, h1, h2⟩, -, h3, h4⟩ := hm
    exact ⟨⟨⟨by omega, by omega⟩, h1, h2⟩, ⟨by omega, by omega⟩, h3, h4⟩
  obtain ⟨-, -, ⟨hc, -⟩ | ⟨hc, -, hlt', -⟩ | ⟨hc, -, hpos, -⟩⟩ :=
    (showsSome_row h hy).cell_cases (show x.toNat < s.size.x.toNat by omega)
  all_goals
    have hc' : (s.cellAt x y).cols = _ := hc
    simp only [KeepsCell, hc']
  · simp
  · simp [hbeside (u := x + 1) (by omega)]
  · simp [hbeside (u := x - 1) (by omega)]

/-- A row with a wide glyph moves down by one, in a clip of three rows. -/
theorem partial_scroll_shown_iff_one_attribute :
    let s := run (ofSize ⟨4, 3⟩) [.writeGlyph ⟨0, 0⟩ 0x4E2D 2 7]
    let s' := s.scroll ⟨0, 0, 3, 0⟩ ⟨0, 0, 3, 2⟩ true ⟨0, 1⟩ 0x20 7
    let t : TerminalScreen := { lines := TerminalScreen.cellGrid 4 3 s.cellAt, width := 4, bottom := 2 }
    (t.receive (sendPartialScroll s' (0, 0) ⟨⟨0, 0, 3, 0⟩, ⟨0, 0, 3, 2⟩, true, ⟨0, 1⟩⟩ 0x20 7)).Shows s' := by
  intro s s' t
  refine (@partial_scroll_shown_iff ⟨4, 3⟩ (by decide +kernel) (by decide +kernel) [.writeGlyph ⟨0, 0⟩ 0x4E2D 2 7]
    ⟨⟨0, 0, 3, 0⟩, ⟨0, 0, 3, 2⟩, true, ⟨0, 1⟩⟩ 0x20 7 (0, 0) t (by decide +kernel)
    ⟨by decide +kernel, by decide +kernel⟩).mpr (.inr fun x y hm => ?_)
  obtain ⟨⟨⟨h1, h2⟩, h3, h4⟩, -⟩ := hm
  have h1 : 0 ≤ x := h1
  have h2 : x ≤ 3 := h2
  obtain rfl : y = 0 := Int.le_antisymm h4 h3
  have hx : x = 0 ∨ x = 1 ∨ x = 2 ∨ x = 3 := by omega
  rcases hx with rfl | rfl | rfl | rfl <;> decide +kernel

/-- The terminal moves the attribute of the second half, the buffer loses it. -/
theorem partial_scroll_loses_attribute :
    let s := run (ofSize ⟨4, 3⟩) [.writeGlyph ⟨0, 0⟩ 0x4E2D 2 7, .setAttr ⟨1, 0⟩ 0x1E]
    let r : ScrollRequest := ⟨⟨0, 0, 3, 0⟩, ⟨0, 0, 3, 2⟩, true, ⟨0, 1⟩⟩
    let s' := s.scroll r.scrollRectangle r.clipRectangle r.clip r.destinationOrigin 0x20 7
    let t : TerminalScreen := { lines := TerminalScreen.cellGrid 4 3 s.cellAt, width := 4, bottom := 2 }
    (r.wholeRows s 0x20 7 = true ∧ t.Shows s) ∧
      ¬ (t.receive (sendPartialScroll s' (0, 0) r 0x20 7)).Shows s' ∧
      s'.cellAt 1 1 = ⟨[0x4E2D], 0, .ofWord 7⟩ ∧
      ((t.receive (sendPartialScroll s' (0, 0) r 0x20 7)).lines[1]?.bind (·[1]?)) = some ⟨[0x4E2D], 0, .ofWord 0x1E⟩ := by
  intro s r s' t
  refine ⟨⟨by decide +kernel, by decide +kernel, by decide +kernel⟩, fun h => ?_, by decide +kernel, by decide +kernel⟩
  have := h.lines
  revert this
  decide +kernel

end ScreenBuffer

end Corehost
