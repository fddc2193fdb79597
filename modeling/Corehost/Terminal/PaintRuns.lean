import Corehost.Screen.ViewportMoves
import Corehost.Terminal.WriteOutput

/-!
# A display that is painted

The requests that paint what they have changed (`api_handlers.hpp`):
WriteConsoleOutput, SetConsoleCursorPosition and SetConsoleWindowInfo, for a
console and the display that receives what they send.

* `PaintRun.Shown`: the display shows the viewport, and the cursor where it is;
* `Tracks.handle`: a request that the display measures as the console does keeps
  it so, painted by cells or as a whole;
* `painting_shown`: for every run of such requests.
-/

namespace Corehost

open Lib
open ScreenBuffer (columnsFrom)

/-! ## The model -/

/-- A console, and the display that receives what it sends. -/
structure PaintRun where
  console : SyncConsole
  display : Display

inductive PaintRequest
  | writeConsoleOutput (outputCodePage : UInt32) (memory : Memory) (q : RegionRequest)
  | setCursorPos (inputSize : UInt32) (position : Coord)
  | setWindowInfo (inputSize : UInt32) (absolute : Bool) (window : SmallRect)

/-- `sizeof(CONSOLE_SETCURSORPOSITION_MSG)`. -/
def CURSOR_MSG : Nat := 4

/-- `sizeof(CONSOLE_SETWINDOWINFO_MSG)`. -/
def WINDOW_MSG : Nat := 10

namespace PaintRun

variable (cps : CodePages) (cw : Char32 → Int)

def send (r : PaintRun) (text : List Char32) : PaintRun := { r with display := r.display.receive cw text }

def renderVisibleViewport (r : PaintRun) : PaintRun :=
  let next := r.console.toScreenSession.renderVisibleViewport
  { r with console := { r.console with
      toScreenSession := next
      terminalCursorLost := false } }.send cw next.snapshot

def vtWriteCupBuffer (r : PaintRun) (position : Coord) : PaintRun :=
  let p := r.console.sb.viewport.clampedRelativePosition position
  { r with console := { r.console with terminalCursorLost := false } }.send cw (vtWriteCup p.y p.x)

/-- `sync_cursor_after_write`, without the bounds of the input line. -/
def syncCursorAfterWrite (r : PaintRun) (position : Coord) : PaintRun :=
  if r.console.terminalCursorLost then { r with console := { r.console with cursorValid := false } }
  else { r with console := { r.console with
      terminalCursor := r.console.sb.viewport.relativePosition position
      cursorValid := true } }

def apiWriteConsoleOutput (r : PaintRun) (outputCodePage : UInt32) (m : Memory) (q : RegionRequest) : PaintRun :=
  if q.WritesNothing r.console.sb then r
  else
    let clipped := r.console.sb.clampRect q.charRegion.rect
    let r := { r with console := { r.console with
        sb := (Corehost.apiWriteConsoleOutput cps outputCodePage r.console.sb m q).screen } }
    if !r.console.sb.viewport.covers r.console.sb.size then r.renderVisibleViewport cw
    else
      -- the rows begin with a CUP each
      let r := { r with console := { r.console with terminalCursorLost := false } }
      (r.send cw (r.console.sb.importText clipped)).syncCursorAfterWrite r.console.state.position

/-- The cursor at another position, and the viewport that follows it. The line break of an Enter is over at the origin. -/
def placeCursor (r : PaintRun) (newPos : Coord) (viewport : ConsoleViewport) : PaintRun :=
  { r with console := { r.console with
      enterNewline := if newPos.x = 0 ∧ newPos.y = 0 then false else r.console.enterNewline
      state := { r.console.state with
        position := newPos
        pendingWrap := false }
      sb := { r.console.sb with viewport := viewport } } }

def apiSetCursorPos (r : PaintRun) (inputSize : UInt32) (newPos : Coord) : PaintRun :=
  if inputSize.toNat < MSG_HEADER + CURSOR_MSG then r
  else if newPos.x < 0 ∨ newPos.x ≥ r.console.screenBufferSize.x ∨ newPos.y < 0 ∨ newPos.y ≥ r.console.screenBufferSize.y then r
  else
    let snapped := r.console.sb.viewport.snapToCursor newPos r.console.screenBufferSize
    let r := r.placeCursor newPos snapped.2
    let r := if snapped.1 then r.renderVisibleViewport cw else r
    (r.vtWriteCupBuffer cw newPos).syncCursorAfterWrite r.console.state.position

/-- The size of the window, as it is sent. -/
def vtWriteWindowSize (size : Coord) : List Char32 :=
  chars ['\x1b', '[', '8', ';'] ++ vtAppendInt size.y ++ chars [';'] ++ vtAppendInt size.x ++ chars ['t']

def apiSetWindowInfo (r : PaintRun) (inputSize : UInt32) (absolute : Bool) (window : SmallRect) : PaintRun :=
  let current := r.console.sb.viewport.rect
  let window : SmallRect :=
    if absolute then window
    else ⟨i16 (window.left + current.left), i16 (window.top + current.top), i16 (window.right + current.right),
      i16 (window.bottom + current.bottom)⟩
  if inputSize.toNat < MSG_HEADER + WINDOW_MSG then r
  else if window.right < window.left ∨ window.bottom < window.top then r
  else
    let requested : Coord := ⟨i16 (window.right - window.left + 1), i16 (window.bottom - window.top + 1)⟩
    let r := { r with console := { r.console with toScreenSession := r.console.toScreenSession.enlargeFor requested } }
    let oldSize := r.console.sb.viewport.size
    let r := { r with console := { r.console with toScreenSession := r.console.toScreenSession.setViewport window } }
    let newSize := r.console.sb.viewport.size
    let r := if oldSize.x ≠ newSize.x ∨ oldSize.y ≠ newSize.y then r.send cw (vtWriteWindowSize newSize) else r
    r.renderVisibleViewport cw

def handle (r : PaintRun) : PaintRequest → PaintRun
  | .writeConsoleOutput outputCodePage m q => r.apiWriteConsoleOutput cps cw outputCodePage m q
  | .setCursorPos inputSize position => r.apiSetCursorPos cw inputSize position
  | .setWindowInfo inputSize absolute window => r.apiSetWindowInfo cw inputSize absolute window

/-! ## What the display shows -/

/-- The display has the size of the viewport and shows it, with the cursor of the console. -/
structure Shown (r : PaintRun) : Prop where
  width : (r.display.width : Int) = r.console.sb.viewport.size.x
  lines : r.display.lines = (columnsFrom r.console.sb.viewport.rect.top r.console.sb.viewport.size.y.toNat).map
    (r.console.sb.paintedRow r.console.sb.viewport.rect)
  row : (r.display.row : Int) = (r.console.sb.viewport.clampedRelativePosition r.console.state.position).y
  col : (r.display.col : Int) = (r.console.sb.viewport.clampedRelativePosition r.console.state.position).x

/-- The invariant. -/
structure Tracks (r : PaintRun) : Prop where
  holds : r.console.toScreenSession.Holds
  unused : r.console.sb.Unused 0xFFFF
  shown : r.Shown

/-! ## Painting the whole viewport -/

end PaintRun

namespace Display

variable {cw : Char32 → Int}

theorem width_foldl_print (cw : Char32 → Int) (text : List Char32) (t : Display) : (text.foldl (print cw) t).width = t.width := by
  refine List.foldlRecOn (motive := fun t' : Display => t'.width = t.width) _ _ rfl fun t' h ch _ => ?_
  rw [← h]
  unfold print nextLine put
  dsimp only
  split_ifs <;> rfl

theorem width_execute (cw : Char32 → Int) (t : Display) (m : VtMessageId × VtPayload) : (t.execute cw m).width = t.width := by
  unfold execute
  split
  all_goals first | rfl | exact width_foldl_print cw _ t | exact TerminalScreen.execute_width _ _

@[simp] theorem width_receive (cw : Char32 → Int) (t : Display) (s : List Char32) : (t.receive cw s).width = t.width :=
  List.foldlRecOn (motive := fun t' : Display => t'.width = t.width) _ _ rfl fun t' h m _ => (width_execute cw t' m).trans h

end Display

namespace PaintRun

variable {cps : CodePages} {cw : Char32 → Int} {r : PaintRun}

theorem sb_renderVisibleViewport {s : ScreenSession} (h : s.Holds) : s.renderVisibleViewport.sb = s.sb := by
  have hviewport := ScreenBuffer.clampToBuffer_of_inside h.sb.sized.width.2 h.sb.sized.height.2 h.sb.inside
  change ({ s.sb with viewport := (s.sb.viewport.clampToBuffer s.sb.size).2 } : ScreenBuffer) = s.sb
  rw [hviewport]

variable (cw r) in
/-- Painted as a whole, the viewport is shown. -/
theorem tracks_renderVisibleViewport (h : r.console.toScreenSession.Holds) (hunused : r.console.sb.Unused 0xFFFF)
    (hwidth : (r.display.width : Int) = r.console.sb.viewport.size.x)
    (hheight : (r.display.lines.length : Int) = r.console.sb.viewport.size.y)
    (hp : r.console.sb.PrintableView cw r.console.sb.viewport.rect) : (r.renderVisibleViewport cw).Tracks := by
  have hsb := sb_renderVisibleViewport h
  have hnext := h.renderVisibleViewport
  obtain ⟨hleft, hleftRight, hright, htop, htopBottom, hbottom⟩ := h.sb.inside
  have hfirst := hunused r.console.sb.viewport.rect.left r.console.sb.viewport.rect.top hleft (by omega) htop (by omega)
  have hshown := ScreenSession.rendered cw r.display hnext.sb
    (by rwa [hsb]) (by rwa [hsb]) (by rw [hsb]; omega) (by rw [hsb]; omega)
  refine ⟨hnext, ?_, ?_, hshown.lines.trans ?_, hshown.row, hshown.col⟩
  · change ScreenBuffer.Unused r.console.toScreenSession.renderVisibleViewport.sb 0xFFFF
    rwa [hsb]
  · change ((r.display.receive cw _).width : Int) = r.console.toScreenSession.renderVisibleViewport.sb.viewport.size.x
    rwa [hsb, Display.width_receive]
  · change _ = (columnsFrom r.console.toScreenSession.renderVisibleViewport.sb.viewport.rect.top
      r.console.toScreenSession.renderVisibleViewport.sb.viewport.size.y.toNat).map
        (r.console.toScreenSession.renderVisibleViewport.sb.paintedRow
          r.console.toScreenSession.renderVisibleViewport.sb.viewport.rect)
    rw [hsb, show r.display.width - r.console.sb.viewport.size.x.toNat = 0 by omega,
      show r.display.lines.length - r.console.sb.viewport.size.y.toNat = 0 by omega]
    simp

variable (cw) in
/-- A new place of the cursor, on a display that shows the viewport. -/
theorem tracks_vtWriteCupBuffer (h : r.console.toScreenSession.Holds) (hunused : r.console.sb.Unused 0xFFFF)
    (hwidth : (r.display.width : Int) = r.console.sb.viewport.size.x)
    (hlines : r.display.lines = (columnsFrom r.console.sb.viewport.rect.top r.console.sb.viewport.size.y.toNat).map
      (r.console.sb.paintedRow r.console.sb.viewport.rect)) :
    ((r.vtWriteCupBuffer cw r.console.state.position).syncCursorAfterWrite r.console.state.position).Tracks := by
  obtain ⟨hleft, hleftRight, hright, htop, htopBottom, hbottom⟩ := h.sb.inside
  have hw := h.sb.sized.width
  have hh := h.sb.sized.height
  obtain ⟨hsx, hsy⟩ : r.console.sb.viewport.size.x = r.console.sb.viewport.rect.right - r.console.sb.viewport.rect.left + 1 ∧
      r.console.sb.viewport.size.y = r.console.sb.viewport.rect.bottom - r.console.sb.viewport.rect.top + 1 :=
    ⟨i16_of_range (by omega) (by omega), i16_of_range (by omega) (by omega)⟩
  obtain ⟨hpx, hpy⟩ := ScreenSession.clampedRelativePosition_mem (v := r.console.sb.viewport) (by omega) (by omega)
    r.console.state.position
  have hcup := (Display.receive_sends cw (@sends_cup (r.console.sb.viewport.clampedRelativePosition r.console.state.position).y
    (r.console.sb.viewport.clampedRelativePosition r.console.state.position).x (by omega) (by omega)) r.display).2
  rw [Display.execute_position] at hcup
  have hheight : r.display.lines.length = r.console.sb.viewport.size.y.toNat := by
    rw [hlines, List.length_map, columnsFrom, List.length_map, List.length_range]
  refine ⟨h.replace h.sb h.size rfl rfl, hunused, ?_⟩
  unfold syncCursorAfterWrite vtWriteCupBuffer send
  dsimp only
  rw [if_neg (by simp), hcup]
  refine ⟨hwidth, hlines, ?_, ?_⟩
  · dsimp only
    omega
  · dsimp only
    omega

theorem Tracks.height (h : r.Tracks) : (r.display.lines.length : Int) = r.console.sb.viewport.size.y := by
  obtain ⟨-, -, -, htop, htopBottom, hbottom⟩ := h.holds.sb.inside
  have hheight := h.holds.sb.sized.height
  have hsy : r.console.sb.viewport.size.y = r.console.sb.viewport.rect.bottom - r.console.sb.viewport.rect.top + 1 :=
    i16_of_range (by omega) (by omega)
  rw [h.shown.lines, List.length_map, columnsFrom, List.length_map, List.length_range]
  omega

/-! ## Painting cells -/

theorem rect_of_covers {s : ScreenBuffer} (h : s.Sized) (hc : s.viewport.covers s.size = true) :
    s.viewport.rect = ScrollRequest.buffer s ∧ s.viewport.size = s.size := by
  have hw := h.width
  have hh := h.height
  have hx : validDimension s.size.x = s.size.x := by unfold validDimension; omega
  have hy : validDimension s.size.y = s.size.y := by unfold validDimension; omega
  simp only [ConsoleViewport.covers, hx, hy, Bool.and_eq_true, beq_iff_eq] at hc
  obtain ⟨⟨⟨h1, h2⟩, h3⟩, h4⟩ := hc
  have hsx : i16 (s.viewport.rect.right - s.viewport.rect.left + 1) = s.size.x := by
    rw [i16_of_range (by omega) (by omega)]
    omega
  have hsy : i16 (s.viewport.rect.bottom - s.viewport.rect.top + 1) = s.size.y := by
    rw [i16_of_range (by omega) (by omega)]
    omega
  exact ⟨congr (congr (congrArg₂ SmallRect.mk h1 h2) h3) h4, congrArg₂ Coord.mk hsx hsy⟩

/-- A viewport that is the whole buffer. -/
theorem shows_iff_mirrors {s : ScreenBuffer} (h : s.Sized) (hc : s.viewport.covers s.size = true) {d : Display} :
    ((d.width : Int) = s.viewport.size.x ∧ d.lines = (columnsFrom s.viewport.rect.top s.viewport.size.y.toNat).map
      (s.paintedRow s.viewport.rect)) ↔ s.Mirrors d := by
  obtain ⟨hrect, hsize⟩ := rect_of_covers h hc
  have hrow : s.paintedRow (ScrollRequest.buffer s) = s.shownRow := by
    funext y
    rw [ScreenBuffer.paintedRow, ScreenBuffer.shownRow, show (ScrollRequest.buffer s).right - (ScrollRequest.buffer s).left + 1 =
      s.size.x by simp only [ScrollRequest.buffer]; omega]
    rfl
  rw [ScreenBuffer.mirrors_iff h, hsize, hrect, hrow]
  rfl

theorem Tracks.apiWriteConsoleOutput (h : r.Tracks) (cp : UInt32) (m : Memory) (q : RegionRequest)
    (hp : (r.apiWriteConsoleOutput cps cw cp m q).console.sb.PrintableView cw
      (r.apiWriteConsoleOutput cps cw cp m q).console.sb.viewport.rect)
    (hhalves : ¬ q.WritesNothing r.console.sb → r.console.sb.viewport.covers r.console.sb.size = true →
      r.console.sb.HalvesMatch (r.console.sb.clampRect q.charRegion.rect)) : (r.apiWriteConsoleOutput cps cw cp m q).Tracks := by
  by_cases hq : q.WritesNothing r.console.sb
  · rwa [PaintRun.apiWriteConsoleOutput, if_pos hq]
  have hi := ScreenBuffer.importedRows cps cp m h.holds.sb.sized hq
  have hheight := h.height
  have hhalves := hhalves hq
  rw [PaintRun.apiWriteConsoleOutput, if_neg hq] at hp ⊢
  dsimp only at hp ⊢
  generalize (Corehost.apiWriteConsoleOutput cps cp r.console.sb m q).screen = sb at hi hp ⊢
  generalize r.console.sb.clampRect q.charRegion.rect = clipped at hi hhalves hp ⊢
  have hsb : sb.Whole := ⟨hi.sized, by rw [hi.viewport, hi.size]; exact h.holds.sb.inside⟩
  have hunused := ScreenBuffer.unused_of_imported hi h.unused
  have hholds : ({ r.console with sb := sb } : SyncConsole).toScreenSession.Holds := h.holds.replace hsb (hi.size.trans h.holds.size) rfl rfl
  by_cases hc : sb.viewport.covers sb.size = true
  · rw [hc, Bool.not_true, if_neg Bool.false_ne_true] at hp ⊢
    have hc' : r.console.sb.viewport.covers r.console.sb.size = true := by rwa [← hi.viewport, ← hi.size]
    have hmirrors := (shows_iff_mirrors h.holds.sb.sized hc').mp ⟨h.shown.width, h.shown.lines⟩
    obtain ⟨hmirrors, hrow, hcol, -⟩ := @ScreenBuffer.receive_importText cw sb clipped hi.sized
      (by rwa [← (rect_of_covers hi.sized hc).1]) hunused (by rw [hi.size]; exact hi.edges.1) r.display
      ⟨by rw [hi.size]; exact hmirrors.width, by rw [hi.size]; exact hmirrors.height, fun y h0 hy => by
        rw [hi.size] at hy ⊢
        obtain ⟨line, hline, hlength, hcells⟩ := hmirrors.lines y h0 hy
        refine ⟨line, hline, hlength, fun x hx0 hx => ?_⟩
        obtain ⟨cell, hcell, rfl⟩ := hcells x hx0 hx
        exact ⟨_, hcell, ScreenBuffer.unpainted_of_imported h.holds.sb.sized hi (hhalves hc') ⟨hx0, hx⟩ ⟨h0, hy⟩⟩⟩
    obtain ⟨hwidth, hlines⟩ := (shows_iff_mirrors hi.sized hc).mpr hmirrors
    refine ⟨hholds.replace hsb hholds.size rfl rfl, hunused, hwidth, hlines, ?_, ?_⟩
    · refine ((congrArg Nat.cast hrow).trans h.shown.row).trans ?_
      rw [← hi.viewport]
      rfl
    · refine ((congrArg Nat.cast hcol).trans h.shown.col).trans ?_
      rw [← hi.viewport]
      rfl
  · rw [Bool.not_eq_true] at hc
    rw [hc, Bool.not_false, if_pos rfl] at hp ⊢
    refine tracks_renderVisibleViewport cw _ hholds hunused ?_ ?_ ?_
    · dsimp only
      rw [hi.viewport]
      exact h.shown.width
    · dsimp only
      rw [hi.viewport]
      exact hheight
    · have hsame := sb_renderVisibleViewport hholds
      change ScreenBuffer.PrintableView cw (ScreenSession.renderVisibleViewport _).sb (ScreenSession.renderVisibleViewport _).sb.viewport.rect at hp
      rwa [hsame] at hp

/-! ## The cursor and the window -/

/-- The viewport that follows the cursor is inside the buffer and as large as before. -/
theorem snapToCursor_inside {v : ConsoleViewport} {bufferSize cursor : Coord} (h : v.Inside bufferSize)
    (hx : bufferSize.x ≤ 0x7FFF) (hy : bufferSize.y ≤ 0x7FFF) (hcx : 0 ≤ cursor.x ∧ cursor.x < bufferSize.x)
    (hcy : 0 ≤ cursor.y ∧ cursor.y < bufferSize.y) :
    (v.snapToCursor cursor bufferSize).2.Inside bufferSize ∧ (v.snapToCursor cursor bufferSize).2.size = v.size := by
  obtain ⟨hinx, -, -⟩ := ConsoleViewport.snapSide_spec h.left h.leftRight h.right hx hcx
  obtain ⟨hiny, -, -⟩ := ConsoleViewport.snapSide_spec h.top h.topBottom h.bottom hy hcy
  have hw := h.leftRight
  have hh := h.topBottom
  have hmoved : (v.movedTo ⟨ConsoleViewport.snapSide v.rect.left v.rect.right cursor.x,
      ConsoleViewport.snapSide v.rect.top v.rect.bottom cursor.y⟩).Inside bufferSize := by
    constructor <;> simp only [ConsoleViewport.movedTo] <;> omega
  rw [ConsoleViewport.snapToCursor_eq, ConsoleViewport.setOrigin_eq h hx hy hmoved]
  exact ⟨hmoved, ConsoleViewport.size_movedTo v _⟩

theorem Tracks.apiSetCursorPos (h : r.Tracks) (inputSize : UInt32) (newPos : Coord)
    (hp : (r.apiSetCursorPos cw inputSize newPos).console.sb.PrintableView cw
      (r.apiSetCursorPos cw inputSize newPos).console.sb.viewport.rect) : (r.apiSetCursorPos cw inputSize newPos).Tracks := by
  have hheight := h.height
  have hw := h.holds.sb.sized.width
  have hh := h.holds.sb.sized.height
  by_cases hsize : inputSize.toNat < MSG_HEADER + CURSOR_MSG
  · rwa [PaintRun.apiSetCursorPos, if_pos hsize]
  by_cases hout : newPos.x < 0 ∨ newPos.x ≥ r.console.screenBufferSize.x ∨ newPos.y < 0 ∨ newPos.y ≥ r.console.screenBufferSize.y
  · rwa [PaintRun.apiSetCursorPos, if_neg hsize, if_pos hout]
  rw [PaintRun.apiSetCursorPos, if_neg hsize, if_neg hout] at hp ⊢
  rw [← h.holds.size] at hout hp ⊢
  obtain ⟨hinside, hsame⟩ := @snapToCursor_inside _ _ newPos h.holds.sb.inside hw.2 hh.2 (by omega) (by omega)
  have hstays : (r.console.sb.viewport.snapToCursor newPos r.console.sb.size).1 = false →
      (r.console.sb.viewport.snapToCursor newPos r.console.sb.size).2 = r.console.sb.viewport := fun hfalse =>
    not_not.mp fun hne => Bool.false_ne_true (hfalse.symm.trans ((ConsoleViewport.setRect_fst r.console.sb.viewport _ _).mpr hne))
  generalize r.console.sb.viewport.snapToCursor newPos r.console.sb.size = snapped at *
  have hholds : (r.placeCursor newPos snapped.2).console.toScreenSession.Holds :=
    h.holds.replace ⟨h.holds.sb.sized.setViewport snapped.2, hinside⟩ h.holds.size rfl rfl
  dsimp only at hp ⊢
  by_cases hchanged : snapped.1 = true
  · rw [if_pos hchanged] at hp ⊢
    have hsb := sb_renderVisibleViewport hholds
    have hrendered := tracks_renderVisibleViewport cw (r.placeCursor newPos snapped.2) hholds h.unused
      (h.shown.width.trans (congrArg Coord.x hsame.symm)) (hheight.trans (congrArg Coord.y hsame.symm)) (by
        have hview : ScreenBuffer.PrintableView cw (r.placeCursor newPos snapped.2).console.toScreenSession.renderVisibleViewport.sb
          (r.placeCursor newPos snapped.2).console.toScreenSession.renderVisibleViewport.sb.viewport.rect := hp
        rwa [hsb] at hview)
    have hposition : ((r.placeCursor newPos snapped.2).renderVisibleViewport cw).console.state.position = newPos := by
      change (⟨clamp newPos.x 0 (i16 (r.console.screenBufferSize.x - 1)), clamp newPos.y 0 (i16 (r.console.screenBufferSize.y - 1))⟩ : Coord)
        = newPos
      rw [← h.holds.size, i16_of_range (by omega) (by omega), i16_of_range (by omega) (by omega), clamp_of_mem (by omega) (by omega),
        clamp_of_mem (by omega) (by omega)]
    have htracks := tracks_vtWriteCupBuffer cw hrendered.holds hrendered.unused hrendered.shown.width hrendered.shown.lines
    rwa [hposition] at htracks ⊢
  · rw [if_neg hchanged]
    have hview := hstays (Bool.not_eq_true _ ▸ hchanged)
    rw [hview] at hholds ⊢
    exact tracks_vtWriteCupBuffer cw hholds h.unused h.shown.width h.shown.lines

theorem Tracks.apiSetWindowInfo (h : r.Tracks) (inputSize : UInt32) (absolute : Bool) (window : SmallRect)
    (hbuffer : (r.apiSetWindowInfo cw inputSize absolute window).console.screenBufferSize = r.console.screenBufferSize)
    (hsize : (r.apiSetWindowInfo cw inputSize absolute window).console.sb.viewport.size = r.console.sb.viewport.size)
    (hp : (r.apiSetWindowInfo cw inputSize absolute window).console.sb.PrintableView cw
      (r.apiSetWindowInfo cw inputSize absolute window).console.sb.viewport.rect) :
    (r.apiSetWindowInfo cw inputSize absolute window).Tracks := by
  have hheight := h.height
  unfold PaintRun.apiSetWindowInfo at hbuffer hsize hp ⊢
  dsimp only at hbuffer hsize hp ⊢
  generalize (if absolute = true then window else _) = moved at *
  by_cases hinput : inputSize.toNat < MSG_HEADER + WINDOW_MSG
  · rwa [if_pos hinput]
  rw [if_neg hinput] at hbuffer hsize hp ⊢
  by_cases hempty : moved.right < moved.left ∨ moved.bottom < moved.top
  · rwa [if_pos hempty]
  rw [if_neg hempty] at hbuffer hsize hp ⊢
  generalize (⟨i16 (moved.right - moved.left + 1), i16 (moved.bottom - moved.top + 1)⟩ : Coord) = requested at *
  have hkept : (r.console.toScreenSession.enlargeFor requested).screenBufferSize = r.console.screenBufferSize := by
    split_ifs at hbuffer
    all_goals exact hbuffer
  have henlarge : r.console.toScreenSession.enlargeFor requested = r.console.toScreenSession := by
    unfold ScreenSession.enlargeFor at hkept ⊢
    dsimp only at hkept ⊢
    split_ifs at hkept ⊢ with hlarger
    · have hx := congrArg Coord.x hkept
      have hy := congrArg Coord.y hkept
      dsimp only at hx hy
      omega
    · rfl
  rw [henlarge] at hsize hp ⊢
  have hholds : (r.console.toScreenSession.setViewport moved).Holds :=
    h.holds.replace (h.holds.sb.sized.setRect moved) h.holds.size rfl rfl
  have hsb := sb_renderVisibleViewport hholds
  have hsame : (r.console.toScreenSession.setViewport moved).sb.viewport.size = r.console.sb.viewport.size := by
    rw [← hsb]
    split_ifs at hsize
    all_goals exact hsize
  rw [hsame, if_neg (by simp)] at hp ⊢
  refine tracks_renderVisibleViewport cw _ hholds h.unused (h.shown.width.trans ?_) (hheight.trans ?_) ?_
  · exact (congrArg Coord.x hsame).symm
  · exact (congrArg Coord.y hsame).symm
  · have hview : ScreenBuffer.PrintableView cw (r.console.toScreenSession.setViewport moved).renderVisibleViewport.sb
      (r.console.toScreenSession.setViewport moved).renderVisibleViewport.sb.viewport.rect := hp
    rwa [hsb] at hview

/-! ## Runs -/

end PaintRun

/-- A wide glyph that begins right behind the cells of a request has one color, when the cells alone are painted. -/
def PaintRequest.HalvesMatch (sb : ScreenBuffer) : PaintRequest → Prop
  | .writeConsoleOutput _ _ q => ¬ q.WritesNothing sb → sb.viewport.covers sb.size = true →
    sb.HalvesMatch (sb.clampRect q.charRegion.rect)
  | .setCursorPos _ _ => True
  | .setWindowInfo _ _ _ => True

namespace PaintRun

variable {cps : CodePages} {cw : Char32 → Int} {r : PaintRun}

variable (cps cw) in
/-- The request leaves the sizes of the buffer and of the window, and the display measures the glyphs of the window
as the buffer does. -/
structure Paintable (r : PaintRun) (e : PaintRequest) : Prop where
  buffer : (r.handle cps cw e).console.screenBufferSize = r.console.screenBufferSize
  window : (r.handle cps cw e).console.sb.viewport.size = r.console.sb.viewport.size
  printable : (r.handle cps cw e).console.sb.PrintableView cw (r.handle cps cw e).console.sb.viewport.rect
  halves : e.HalvesMatch r.console.sb

theorem Tracks.handle (h : r.Tracks) {e : PaintRequest} (he : r.Paintable cps cw e) : (r.handle cps cw e).Tracks := by
  cases e with
  | writeConsoleOutput cp m q => exact h.apiWriteConsoleOutput cp m q he.printable he.halves
  | setCursorPos inputSize position => exact h.apiSetCursorPos inputSize position he.printable
  | setWindowInfo inputSize absolute window => exact h.apiSetWindowInfo inputSize absolute window he.buffer he.window he.printable

/-- A request always ends. -/
def step (cps : CodePages) (cw : Char32 → Int) (r : PaintRun) (e : PaintRequest) : Option PaintRun := some (r.handle cps cw e)

/-- The console paints its viewport on a display. -/
def start (cw : Char32 → Int) (console : SyncConsole) (d : Display) : PaintRun := renderVisibleViewport cw ⟨console, d⟩

end PaintRun

/-- From every state of a session on, a display of the size of the window shows the
viewport and the cursor after each request that paints: a rectangle of cells, a new
place of the cursor or of the window, as long as the sizes stay and the display
measures the glyphs as the buffer does. -/
theorem painting_shown (cps : CodePages) (cw : Char32 → Int) (size : TerminalSize) (objects : ObjectTable)
    (events : List ScreenEvent) :
    ∀ s ∈ ScreenSession.start size objects, EveryState (ScreenSession.handle cw) (fun s =>
      ∀ (console : SyncConsole) (d : Display) (requests : List PaintRequest), console.toScreenSession = s →
        s.sb.Unused 0xFFFF → s.sb.PrintableView cw s.sb.viewport.rect →
        (d.width : Int) = s.sb.viewport.size.x → (d.lines.length : Int) = s.sb.viewport.size.y →
        EveryStep (PaintRun.step cps cw) (PaintRun.Paintable cps cw) (.start cw console d) requests →
        EveryState (PaintRun.step cps cw) PaintRun.Shown (.start cw console d) requests) s events := by
  intro s₀ hs₀
  refine @everyState_of_invariant _ _ _ ScreenSession.Holds _ (fun s hs console d requests hconsole hunused hp hwidth hheight hsteps => ?_)
    (fun _ _ _ h hstep => h.handle hstep) events _ (ScreenSession.holds_start hs₀)
  subst hconsole
  refine @everyState_of_everyStep _ _ _ PaintRun.Tracks _ _ (fun _ h => h.shown) (fun r e r' h he hstep => ?_) requests _
    (PaintRun.tracks_renderVisibleViewport cw _ hs hunused hwidth hheight hp) hsteps
  rw [← Option.some_inj.mp hstep]
  exact h.handle he

/-- A screen of two columns, with the table of the tab stops that it starts with. -/
def pairSession : ScreenSession :=
  .opened ⟨⟨2, 1⟩, by decide, by decide⟩ {} ((List.range 120).map isDefaultStop)

/-- A cell and the cursor, on a console of two columns. -/
theorem painting_shown_cell :
    let d : Display := { lines := [[⟨[0x78], 2, ⟨7⟩⟩, ⟨[0x78], 0, ⟨7⟩⟩]], width := 2, bottom := 0 }
    EveryState (PaintRun.step asciiCodePages fun _ => 1) PaintRun.Shown (.start (fun _ => 1) { toScreenSession := pairSession } d)
      [.writeConsoleOutput 0 (fun _ => 0x30) ⟨0x1000, 0, ⟨1, 0, 1, 0⟩, true⟩, .setCursorPos 0x1000 ⟨1, 0⟩] := by
  intro d
  have hstart : pairSession ∈ ScreenSession.start ⟨⟨2, 1⟩, by decide, by decide⟩ {} := by decide +kernel
  have hunused : pairSession.sb.Unused 0xFFFF := by
    intro x y hx0 hx hy0 hy
    change x < 2 at hx
    change y < 1 at hy
    obtain rfl : y = 0 := by omega
    obtain rfl | rfl : x = 0 ∨ x = 1 := by omega
    all_goals decide +kernel
  refine painting_shown asciiCodePages (fun _ => 1) ⟨⟨2, 1⟩, by decide, by decide⟩ {} [] _ hstart { toScreenSession := pairSession } d _
    rfl hunused (by decide +kernel) (by decide) (by decide)
    ⟨⟨by decide +kernel, by decide +kernel, by decide +kernel, ?_⟩, fun s' hs' => ?_⟩
  · intro _ _ y _ hx
    exact absurd hx (by decide)
  · obtain rfl := Option.some_inj.mp hs'
    exact ⟨⟨by decide +kernel, by decide +kernel, by decide +kernel, trivial⟩, fun _ _ => trivial⟩

end Corehost
