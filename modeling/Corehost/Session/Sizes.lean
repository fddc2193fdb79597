import Corehost.Session.Objects
import Corehost.Vt.TabStops

/-!
# The sizes of a session

A session with its two screen buffers, and what changes a size: the requests of
an application for the active buffer (`api_handlers.hpp`), the switch to the
other one (`api_router.hpp`), messages of the output, and the terminal
(`pipe_bridge.hpp`).

* `ScreenBuffer.Whole`: the rows have the size of the buffer and the viewport is
  inside;
* `Holds.handle`: after each event every buffer is whole and the active one has
  the size that `console_state` has;
* `sizes_agree_iff`: when the sizes agree in every state of a run, the one of a
  resize by the output that has no end among them.
-/

namespace Corehost

open Lib

/-- A session with both of its buffers. `idle` is `sb_alt` as long as the main
buffer is the active one. -/
structure ScreenSession extends TerminalSession where
  idle : ScreenBuffer
  mainCursor : Coord := {}
  objects : ObjectTable := {}
deriving DecidableEq, Repr

/-- What SetConsoleScreenBufferInfoEx sets of the console, in `SHORT`s. -/
structure ScreenBufferInfo where
  size : Coord
  currentWindowSize : Coord
  maximumWindowSize : Coord
  attributes : UInt16
  width : IsShort size.x
  height : IsShort size.y

def SHRT_MAX : Int := 0x7FFF

namespace ScreenSession

/-- Both buffers that `run_conpty_session` makes behind `init_tab_stops`. -/
def opened (t : TerminalSize) (objects : ObjectTable) (tabStops : List Bool) : ScreenSession where
  toTerminalSession := .opened t tabStops
  idle := (ScreenBuffer.ofSize t.size).clear ({} : ConsoleState).defaultAttributes
  objects := objects

/-- `run_conpty_session`, for what it starts the console with. -/
def start (t : TerminalSize) (objects : ObjectTable) : Option ScreenSession :=
  (initTabStops t.size.x).map (opened t objects)

/-- `clamp_cursor_to_buffer`. -/
def clampCursorToBuffer (s : ScreenSession) : ScreenSession :=
  { s with state := { s.state with
      position := ⟨clamp s.state.position.x 0 (i16 (s.screenBufferSize.x - 1)),
                   clamp s.state.position.y 0 (i16 (s.screenBufferSize.y - 1))⟩ } }

/-- `render_visible_viewport`, without what it sends. -/
def renderVisibleViewport (s : ScreenSession) : ScreenSession :=
  { s with sb := { s.sb with viewport := (s.sb.viewport.clampToBuffer s.sb.size).2 } }.clampCursorToBuffer

/-! ## The active buffer -/

/-- The part of `switch_active_screen_buffer` that gives the next buffer the
size of the console: the buffer, and the session with its cursor clamped. -/
def sizedNext (s : ScreenSession) (next : ScreenBuffer) : ScreenBuffer × ScreenSession :=
  if next.size.x ≠ s.screenBufferSize.x ∨ next.size.y ≠ s.screenBufferSize.y then
    ({ next.resize s.screenBufferSize with viewport := .ofBuffer s.screenBufferSize }, s.clampCursorToBuffer)
  else (next, s)

/-- `switch_active_screen_buffer`, without what it sends and the cursor of `_terminal`. -/
def switchActiveScreenBuffer (s : ScreenSession) (alt : Bool) : ScreenSession :=
  match s.behind, alt with
  | none, true =>
    let (next, s) := s.sizedNext s.idle
    { s with
      mainCursor := s.state.position
      behind := some s.sb
      sb := next
      resizedInAltScreen := false }.renderVisibleViewport
  | some main, false =>
    let (next, s) := s.sizedNext main
    { s with
      idle := s.sb
      behind := none
      sb := next
      state := { s.state with position := s.mainCursor }
      resizedInAltScreen := false }.clampCursorToBuffer
  | _, _ => s

/-- SetConsoleActiveScreenBuffer in `dispatch_L2`. -/
def setActiveSb (s : ScreenSession) (object : UInt64) : ScreenSession :=
  match s.objects.kindFromObject object with
  | .output => s.switchActiveScreenBuffer false
  | .alternateOutput => s.switchActiveScreenBuffer true
  | _ => s

/-! ## Requests -/

/-- `api_set_sb_info`. -/
def apiSetSbInfo (s : ScreenSession) (r : ScreenBufferInfo) : ScreenSession :=
  if r.size.x ≤ 0 ∨ r.size.y ≤ 0 ∨ r.size.x = SHRT_MAX ∨ r.size.y = SHRT_MAX ∨ r.currentWindowSize.x ≤ 0 ∨
      r.currentWindowSize.y ≤ 0 ∨ r.currentWindowSize.x > r.size.x ∨ r.currentWindowSize.y > r.size.y then s
  else
    let sb := s.sb.resize r.size
    let (sizeChanged, viewport) := sb.viewport.setSize r.currentWindowSize sb.size
    let (clampChanged, viewport) := viewport.clampToBuffer sb.size
    let sb := { sb with viewport := viewport }
    let s := { s with
      screenBufferSize := r.size
      maxWindowSize := r.maximumWindowSize
      state := { s.state with defaultAttributes := r.attributes }
      sb := sb }.clampCursorToBuffer
    if (clampChanged || sizeChanged) || !sb.viewport.covers sb.size then s.renderVisibleViewport else s

/-- `api_set_sb_size`. -/
def apiSetSbSize (s : ScreenSession) (newSize : Coord) : ScreenSession :=
  if newSize.x < 1 ∨ newSize.y < 1 ∨ newSize.x = SHRT_MAX ∨ newSize.y = SHRT_MAX ∨ newSize.x < s.sb.viewport.size.x ∨
      newSize.y < s.sb.viewport.size.y then s
  else
    let sb := s.sb.resize newSize
    let (changed, viewport) := sb.viewport.clampToBuffer sb.size
    let sb := { sb with viewport := viewport }
    let s := { s with screenBufferSize := newSize, sb := sb }.clampCursorToBuffer
    if changed || !sb.viewport.covers sb.size then s.renderVisibleViewport else s

/-- `viewport.set_rect`. -/
def setViewport (s : ScreenSession) (window : SmallRect) : ScreenSession :=
  { s with sb := { s.sb with viewport := (s.sb.viewport.setRect window s.sb.size).2 } }

/-- A window that is larger than the buffer makes the buffer larger. -/
def enlargeFor (s : ScreenSession) (requested : Coord) : ScreenSession :=
  let size := s.screenBufferSize
  if requested.x > size.x ∨ requested.y > size.y then
    let size : Coord := ⟨max size.x requested.x, max size.y requested.y⟩
    { s with screenBufferSize := size, sb := s.sb.resize size }
  else s

/-- `api_set_window_info`. -/
def apiSetWindowInfo (s : ScreenSession) (absolute : Bool) (window : SmallRect) : ScreenSession :=
  let current := s.sb.viewport.rect
  let window : SmallRect :=
    if absolute then window
    else ⟨i16 (window.left + current.left), i16 (window.top + current.top), i16 (window.right + current.right),
      i16 (window.bottom + current.bottom)⟩
  if window.right < window.left ∨ window.bottom < window.top then s
  else
    let requested : Coord := ⟨i16 (window.right - window.left + 1), i16 (window.bottom - window.top + 1)⟩
    ((s.enlargeFor requested).setViewport window).renderVisibleViewport

/-! ## The terminal -/

/-- `finish_resize_sync`. `synced` is `_resize_sync_cursor`. -/
def finishResizeSync (s : ScreenSession) (synced reported : Coord) : ScreenSession :=
  let dx := i16 (reported.x - synced.x)
  let dy := i16 (reported.y - synced.y)
  if dx = 0 ∧ dy = 0 then s
  else
    let s := { s with
      sb := s.sb.shiftRows dy s.state.defaultAttributes
      state := { s.state with position := ⟨i16 (s.state.position.x + dx), i16 (s.state.position.y + dy)⟩ }
      }.clampCursorToBuffer
    let s := if s.cursorValid then { s with terminalCursor := s.sb.viewport.relativePosition s.state.position } else s
    { s with enterDest := (s.screens.shiftEnterDest dy s.sb.size.y).enterDest }

end ScreenSession

/-- What changes a size or the active buffer. -/
inductive ScreenEvent
  /-- the terminal and the output -/
  | terminal (e : TerminalEvent)
  /-- the answer to the question for the cursor that follows a resize -/
  | resizeSync (synced reported : Coord)
  | object (m : ObjectMessage)
  | setActiveSb (object : UInt64)
  | setSbInfo (r : ScreenBufferInfo)
  | setSbSize (size : Coord) (width : IsShort size.x) (height : IsShort size.y)
  | setWindowInfo (absolute : Bool) (window : SmallRect)

/-- No resize by the output is too wide for `init_tab_stops`. -/
def ScreenEvent.Narrow : ScreenEvent → Prop
  | .terminal (.output _ .resizeWindow payload) => ¬ payload.Overruns
  | _ => True

/-- The session after an event. A text and a resize by the output can fail to end. -/
def ScreenSession.handle (cw : Char32 → Int) (s : ScreenSession) : ScreenEvent → Option ScreenSession
  | .terminal e => (s.toTerminalSession.handle cw e).map fun t => { s with toTerminalSession := t }
  | .resizeSync synced reported => some (s.finishResizeSync synced reported)
  | .object m => some { s with objects := s.objects.onMessage m }
  | .setActiveSb object => some (s.setActiveSb object)
  | .setSbInfo r => some (s.apiSetSbInfo r)
  | .setSbSize size _ _ => some (s.apiSetSbSize size)
  | .setWindowInfo absolute window => some (s.apiSetWindowInfo absolute window)

/-- The session while `init_tab_stops` does not end. -/
def ScreenSession.stays (s : ScreenSession) : ScreenEvent → Option ScreenSession
  | .terminal e => (s.toTerminalSession.stays e).map fun t => { s with toTerminalSession := t }
  | _ => none

/-! ## Whole buffers -/

namespace ScreenBuffer

variable {s : ScreenBuffer} {size : Coord}

/-- The rows have the size of the buffer, and the viewport is inside. -/
structure Whole (s : ScreenBuffer) : Prop where
  sized : s.Sized
  inside : s.viewport.Inside s.size

theorem Keeps.whole {t : ScreenBuffer} (h : Keeps s t) (hs : s.Whole) : t.Whole :=
  ⟨h.sized hs.sized hs.inside, h.inside hs.inside⟩

theorem Sized.setViewport (h : s.Sized) (viewport : ConsoleViewport) : Sized { s with viewport := viewport } :=
  ⟨h.width, h.height, h.count, h.origin, h.rows⟩

/-- A new size, wherever the viewport is. -/
theorem Sized.resize (h : s.Sized) (hx : size.x ≤ 0x7FFF) (hy : size.y ≤ 0x7FFF) : (s.resize size).Sized := by
  by_cases hne : fitted size = s.size
  · rw [resize_same hne]
    exact h
  · have hall := h.setViewport (.ofBuffer s.size)
    have hnew := ((Sim.plain hall (ConsoleViewport.ofBuffer_inside h.width h.height)).resize hx hy).sized
    rw [resize_eq hall hx hne] at hnew
    rw [resize_eq h hx hne]
    exact ⟨hnew.width, hnew.height, hnew.count, hnew.origin, hnew.rows⟩

theorem Sized.resetTo (h : s.Sized) (t : TerminalSize) : (s.resetTo t.size).Whole := by
  obtain ⟨hsize, hview⟩ := resetTo_spec s t.width t.height
  refine ⟨(h.setViewport _).resize t.width.2 t.height.2, ?_⟩
  rw [hsize, hview]
  exact ConsoleViewport.ofBuffer_inside t.width t.height

theorem Sized.setRect (h : s.Sized) (rect : SmallRect) : Whole { s with viewport := (s.viewport.setRect rect s.size).2 } :=
  ⟨h.setViewport _, ConsoleViewport.setRect_inside s.viewport rect h.width h.height⟩

/-- The size that `resize` leaves. -/
theorem size_resize (h : s.Sized) (t : TerminalSize) : (s.resize t.size).size = t.size := by
  have hfit := fitted_of_pos t.width.1 t.height.1
  by_cases hne : fitted t.size = s.size
  · rw [resize_same hne, ← hne, hfit]
  · rw [resize_eq h t.width.2 hne]
    exact hfit

theorem whole_start (t : TerminalSize) (attr : UInt16) : ((ofSize t.size).clear attr).Whole := by
  have hsim := sim_apply (sim_ofSize t.width t.height) (.clear attr)
  exact ⟨hsim.sized, hsim.inside⟩

end ScreenBuffer

/-! ## The sizes -/

namespace ScreenSession

variable {s s' : ScreenSession} {cw : Char32 → Int}

/-- The active buffer, its rows and its viewport agree with the size that
`console_state` has. -/
structure SizesAgree (s : ScreenSession) : Prop where
  size : s.sb.size = s.screenBufferSize
  rows : (s.sb.rows.length : Int) = s.screenBufferSize.y
  widths : ∀ r ∈ s.sb.rows, (r.width : Int) = s.screenBufferSize.x
  viewport : s.sb.viewport.Inside s.screenBufferSize

/-- The invariant: every buffer is whole, and the active one has the size of the console. -/
structure Holds (s : ScreenSession) : Prop where
  sb : s.sb.Whole
  size : s.sb.size = s.screenBufferSize
  behind : ∀ main ∈ s.behind, main.Whole
  idle : s.idle.Whole

theorem Holds.agree (h : s.Holds) : s.SizesAgree := by
  have hwidth := h.sb.sized.width
  have hheight := h.sb.sized.height
  refine ⟨h.size, ?_, fun r hr => ?_, ?_⟩ <;> rw [← h.size]
  · rw [h.sb.sized.count]
    omega
  · obtain ⟨gs, as, hshows⟩ := h.sb.sized.rows r hr
    rw [hshows.width_eq]
    omega
  · exact h.sb.inside

/-- The size of the console is one that a terminal may have. -/
def Holds.terminalSize (h : s.Holds) : TerminalSize where
  size := s.screenBufferSize
  width := h.size ▸ h.sb.sized.width
  height := h.size ▸ h.sb.sized.height

/-- A change of the active buffer and of what is not a buffer. -/
theorem Holds.replace (h : s.Holds) (hsb : s'.sb.Whole) (hsize : s'.sb.size = s'.screenBufferSize)
    (hbehind : s'.behind = s.behind) (hidle : s'.idle = s.idle) : s'.Holds :=
  ⟨hsb, hsize, by rw [hbehind]; exact h.behind, by rw [hidle]; exact h.idle⟩

theorem Holds.clampCursorToBuffer (h : s.Holds) : s.clampCursorToBuffer.Holds := h.replace h.sb h.size rfl rfl

theorem Holds.renderVisibleViewport (h : s.Holds) : s.renderVisibleViewport.Holds :=
  h.replace (h.sb.sized.setRect s.sb.viewport.rect) h.size rfl rfl

theorem Holds.render_if (h : s.Holds) (b : Bool) : (if b then s.renderVisibleViewport else s).Holds := by
  split
  · exact h.renderVisibleViewport
  · exact h

/-! ## One event -/

theorem holds_start {t : TerminalSize} {objects : ObjectTable} (hs : s ∈ start t objects) : s.Holds := by
  obtain ⟨tabStops, -, rfl⟩ := Option.map_eq_some_iff.mp hs
  exact ⟨ScreenBuffer.whole_start t _, rfl, fun _ hmain => (nomatch hmain), ScreenBuffer.whole_start t _⟩

/-- A session starts with the widths that `init_tab_stops` ends on. -/
theorem exists_start_iff {t : TerminalSize} (objects : ObjectTable) :
    (∃ s, s ∈ start t objects) ↔ t.size.x ≤ widestTabbed := by
  change (∃ s, start t objects = some s) ↔ _
  rw [← Option.isSome_iff_exists, start, Option.isSome_map, Option.isSome_iff_ne_none, ne_eq, initTabStops_eq_none_iff, not_lt]

/-- A buffer that becomes the active one has the size of the console. -/
theorem Holds.sizedNext (h : s.Holds) {next : ScreenBuffer} (hnext : next.Whole) :
    (s.sizedNext next).1.Whole ∧ (s.sizedNext next).1.size = s.screenBufferSize ∧ (s.sizedNext next).2.Holds ∧
      (s.sizedNext next).2.screenBufferSize = s.screenBufferSize := by
  have hsize := ScreenBuffer.size_resize hnext.sized h.terminalSize
  have hwidth := h.terminalSize.width
  have hheight := h.terminalSize.height
  change (next.resize s.screenBufferSize).size = s.screenBufferSize at hsize
  unfold ScreenSession.sizedNext
  split_ifs with hne
  · refine ⟨⟨(hnext.sized.resize hwidth.2 hheight.2).setViewport _, ?_⟩, hsize, h.clampCursorToBuffer, rfl⟩
    dsimp only
    rw [hsize]
    exact ConsoleViewport.ofBuffer_inside hwidth hheight
  · simp only [not_or, not_not] at hne
    exact ⟨hnext, congrArg₂ Coord.mk hne.1 hne.2, h, rfl⟩

theorem Holds.switchActiveScreenBuffer (h : s.Holds) (alt : Bool) : (s.switchActiveScreenBuffer alt).Holds := by
  unfold ScreenSession.switchActiveScreenBuffer
  split
  · obtain ⟨hnext, hsize, hs, hsame⟩ := h.sizedNext h.idle
    refine Holds.renderVisibleViewport ⟨hnext, hsize.trans hsame.symm, fun main hmain => ?_, hs.idle⟩
    exact Option.some_inj.mp hmain ▸ hs.sb
  · rename_i main hmain
    obtain ⟨hnext, hsize, hs, hsame⟩ := h.sizedNext (h.behind main hmain)
    exact Holds.clampCursorToBuffer ⟨hnext, hsize.trans hsame.symm, fun _ hmain => (nomatch hmain), hs.sb⟩
  · exact h

theorem Holds.setActiveSb (h : s.Holds) (object : UInt64) : (s.setActiveSb object).Holds := by
  unfold ScreenSession.setActiveSb
  split
  · exact h.switchActiveScreenBuffer false
  · exact h.switchActiveScreenBuffer true
  · exact h

theorem Holds.apiSetSbInfo (h : s.Holds) (r : ScreenBufferInfo) : (s.apiSetSbInfo r).Holds := by
  unfold ScreenSession.apiSetSbInfo
  split_ifs with hbad
  · exact h
  · have hw := r.width
    have hh := r.height
    let t : TerminalSize := ⟨r.size, by unfold IsShort at hw; omega, by unfold IsShort at hh; omega⟩
    have hsized := h.sb.sized.resize t.width.2 t.height.2
    have hsize := ScreenBuffer.size_resize h.sb.sized t
    refine Holds.render_if (Holds.clampCursorToBuffer ?_) _
    exact h.replace ((hsized.setViewport _).setRect _) hsize rfl rfl

theorem Holds.apiSetSbSize (h : s.Holds) {size : Coord} (hw : IsShort size.x) (hh : IsShort size.y) :
    (s.apiSetSbSize size).Holds := by
  unfold ScreenSession.apiSetSbSize
  split_ifs with hbad
  · exact h
  · let t : TerminalSize := ⟨size, by unfold IsShort at hw; omega, by unfold IsShort at hh; omega⟩
    have hsized := h.sb.sized.resize t.width.2 t.height.2
    have hsize := ScreenBuffer.size_resize h.sb.sized t
    refine Holds.render_if (Holds.clampCursorToBuffer ?_) _
    exact h.replace (hsized.setRect _) hsize rfl rfl

theorem Holds.enlargeFor (h : s.Holds) {requested : Coord} (hx : IsShort requested.x) (hy : IsShort requested.y) :
    (s.enlargeFor requested).Holds := by
  have hw : 1 ≤ s.screenBufferSize.x ∧ s.screenBufferSize.x ≤ 0x7FFF := h.terminalSize.width
  have hh : 1 ≤ s.screenBufferSize.y ∧ s.screenBufferSize.y ≤ 0x7FFF := h.terminalSize.height
  unfold IsShort at hx hy
  let t : TerminalSize := ⟨⟨max s.screenBufferSize.x requested.x, max s.screenBufferSize.y requested.y⟩,
    by dsimp only; omega, by dsimp only; omega⟩
  unfold ScreenSession.enlargeFor
  dsimp only
  split
  · refine h.replace ⟨h.sb.sized.resize t.width.2 t.height.2, ?_⟩ (ScreenBuffer.size_resize h.sb.sized t) rfl rfl
    exact ((ScreenBuffer.Sim.plain h.sb.sized h.sb.inside).resize t.width.2 t.height.2).inside
  · exact h

theorem Holds.setViewport (h : s.Holds) (window : SmallRect) : (s.setViewport window).Holds :=
  h.replace (h.sb.sized.setRect window) h.size rfl rfl

theorem Holds.apiSetWindowInfo (h : s.Holds) (absolute : Bool) (window : SmallRect) :
    (s.apiSetWindowInfo absolute window).Holds := by
  unfold ScreenSession.apiSetWindowInfo
  dsimp only
  generalize (if absolute then window else _ : SmallRect) = w
  split
  · exact h
  · exact ((h.enlargeFor (isShort_i16 _) (isShort_i16 _)).setViewport w).renderVisibleViewport

theorem Holds.finishResizeSync (h : s.Holds) (synced reported : Coord) : (s.finishResizeSync synced reported).Holds := by
  have hkeeps := ScreenBuffer.keeps_shiftRows s.sb (i16 (reported.y - synced.y)) s.state.defaultAttributes
  unfold ScreenSession.finishResizeSync
  dsimp only
  split_ifs
  · exact h
  · exact h.replace (hkeeps.whole h.sb) (hkeeps.frame.size.trans h.size) rfl rfl
  · exact h.replace (hkeeps.whole h.sb) (hkeeps.frame.size.trans h.size) rfl rfl

theorem Holds.applyTerminalResize (h : s.Holds) (t : TerminalSize) :
    Holds { s with toTerminalSession := s.toTerminalSession.applyTerminalResize t.size } := by
  obtain ⟨hsb, -, ⟨hsize, -⟩, hbehind⟩ := TerminalScreens.applyTerminalResize_fields s.screens t.size
  have hshifted : (s.screens.shiftedBuffer t.size).Whole := by
    unfold TerminalScreens.shiftedBuffer
    split
    · exact (ScreenBuffer.keeps_shiftRows ..).whole h.sb
    · exact h.sb
  have hnew := hshifted.sized.resetTo t
  refine ⟨?_, ?_, fun main hmain => ?_, h.idle⟩
  · exact hsb ▸ hnew
  · exact (congrArg ScreenBuffer.size hsb).trans ((ScreenBuffer.resetTo_spec _ t.width t.height).1.trans hsize.symm)
  · obtain ⟨old, hold, rfl⟩ := Option.map_eq_some_iff.mp (hbehind.symm.trans hmain)
    exact (h.behind old hold).sized.resetTo t

/-- `resize_window` of the output. -/
theorem Holds.resizeWindow (h : s.Holds) (payload : VtPayload) {vt : VtConsole}
    (hvt : (s.onConsole (·.setWrap false)).resizeWindow payload.resizeValue.1 payload.resizeValue.2 = some vt) :
    Holds { s with toVtConsole := vt } := by
  unfold VtConsole.resizeWindow at hvt
  by_cases hpos : payload.resizeValue.1 > 0 ∧ payload.resizeValue.2 > 0
  · rw [if_pos hpos] at hvt
    obtain ⟨tabStops, -, rfl⟩ := Option.map_eq_some_iff.mp hvt
    have hspec := ScreenBuffer.resetTo_spec s.sb (TabRun.resizeOf payload hpos).width (TabRun.resizeOf payload hpos).height
    exact h.replace (h.sb.sized.resetTo (TabRun.resizeOf payload hpos)) hspec.1 rfl rfl
  · rw [if_neg hpos] at hvt
    obtain rfl := Option.some_inj.mp hvt
    exact h.replace h.sb h.size rfl rfl

theorem Holds.terminal (h : s.Holds) {e : TerminalEvent} {t : TerminalSession}
    (ht : s.toTerminalSession.handle cw e = some t) : Holds { s with toTerminalSession := t } := by
  cases e with
  | signal t' =>
    obtain rfl := Option.some_inj.mp ht
    exact h.applyTerminalResize t'
  | input payload =>
    obtain rfl := Option.some_inj.mp ht
    by_cases hpos : payload.resizeValue.1 > 0 ∧ payload.resizeValue.2 > 0
    · rw [TabRun.processInputResizeWindow_pos _ hpos]
      have hspec := ScreenBuffer.resetTo_spec s.sb (TabRun.resizeOf payload hpos).width (TabRun.resizeOf payload hpos).height
      exact h.replace (h.sb.sized.resetTo _) hspec.1 rfl rfl
    · rw [TabRun.processInputResizeWindow_neg _ hpos]
      exact h
  | output sync id payload =>
    obtain ⟨vt, hvt, rfl⟩ := Option.map_eq_some_iff.mp ht
    by_cases hid : id = .resizeWindow
    · subst hid
      exact h.resizeWindow payload hvt
    · have hkeeps := VtConsole.keepsWindow_message hid hvt
      exact h.replace (hkeeps.sb.whole h.sb) ((hkeeps.sb.frame.size.trans h.size).trans hkeeps.size.symm) rfl rfl

theorem Holds.handle (h : s.Holds) {e : ScreenEvent} (hs : s.handle cw e = some s') : s'.Holds := by
  cases e with
  | terminal e =>
    obtain ⟨t, ht, rfl⟩ := Option.map_eq_some_iff.mp hs
    exact h.terminal ht
  | resizeSync synced reported => exact Option.some_inj.mp hs ▸ h.finishResizeSync synced reported
  | object m => exact Option.some_inj.mp hs ▸ h.replace h.sb h.size rfl rfl
  | setActiveSb object => exact Option.some_inj.mp hs ▸ h.setActiveSb object
  | setSbInfo r => exact Option.some_inj.mp hs ▸ h.apiSetSbInfo r
  | setSbSize size width height => exact Option.some_inj.mp hs ▸ h.apiSetSbSize width height
  | setWindowInfo absolute window => exact Option.some_inj.mp hs ▸ h.apiSetWindowInfo absolute window

/-- A step stays exactly when a resize by the output overruns. -/
theorem stays_eq_none_iff {e : ScreenEvent} : s.stays e = none ↔ e.Narrow := by
  cases e with
  | terminal e =>
    rw [ScreenSession.stays, Option.map_eq_none_iff]
    cases e with
    | output sync id payload =>
      cases id with
      | resizeWindow =>
        rw [TerminalSession.stays]
        split_ifs with hover
        · exact iff_of_false not_false (not_not.mpr hover)
        · exact iff_of_true rfl hover
      | _ => exact iff_of_true rfl trivial
    | _ => exact iff_of_true rfl trivial
  | _ => exact iff_of_true rfl trivial

end ScreenSession

/-- A session starts, and in a run from there no step stays in `init_tab_stops`
and each one, whatever changes a size or the active buffer, leaves the active
buffer with the size of the console, as many rows, each as wide, and a viewport
inside, exactly when `init_tab_stops` ends on the width and no resize by the
output is too wide. -/
theorem sizes_agree_iff (cw : Char32 → Int) (t : TerminalSize) (objects : ObjectTable) (events : List ScreenEvent) :
    (∃ s ∈ ScreenSession.start t objects,
        EveryState (Course.next (ScreenSession.handle cw) ScreenSession.stays) (Course.Ended ScreenSession.SizesAgree)
          (.ended s) events) ↔
      t.size.x ≤ widestTabbed ∧
        ∀ s ∈ ScreenSession.start t objects, EveryStep (ScreenSession.handle cw) (fun _ e => e.Narrow) s events := by
  have hrun (s : ScreenSession) (hs : s ∈ ScreenSession.start t objects) :
      EveryState (Course.next (ScreenSession.handle cw) ScreenSession.stays) (Course.Ended ScreenSession.SizesAgree)
        (.ended s) events ↔ EveryStep (ScreenSession.handle cw) (fun _ e => e.Narrow) s events :=
    everyState_ended_iff (fun _ h => h.agree) (fun _ _ _ h _ hs => h.handle hs)
      (fun _ _ _ hc => ScreenSession.stays_eq_none_iff.mpr hc)
      (fun _ _ _ hstays _ => ScreenSession.stays_eq_none_iff.mp hstays) events (ScreenSession.holds_start hs)
  constructor
  · rintro ⟨s, hs, h⟩
    refine ⟨(ScreenSession.exists_start_iff objects).mp ⟨s, hs⟩, fun s' hs' => ?_⟩
    exact (hrun s' hs').mp (Option.mem_unique hs hs' ▸ h)
  · rintro ⟨hwidth, h⟩
    obtain ⟨s, hs⟩ := (ScreenSession.exists_start_iff objects).mpr hwidth
    exact ⟨s, hs, (hrun s hs).mpr (h s hs)⟩

/-- An application resizes to one row of 32767 columns. `init_tab_stops` does
not end, and the console has a size that the buffer does not have. -/
theorem wide_resize_parts_sizes :
    ∃ s ∈ ScreenSession.start standardSize {},
      ¬ EveryState (Course.next (ScreenSession.handle fun _ => 1) ScreenSession.stays) (fun p => p.state.SizesAgree)
        (.ended s) [.terminal (.output true .resizeWindow (.resize 1 0x7FFF))] := by
  obtain ⟨s, hs⟩ := (ScreenSession.exists_start_iff {}).mpr (show standardSize.size.x ≤ widestTabbed by decide)
  refine ⟨s, hs, fun h => ?_⟩
  obtain ⟨tabStops, -, rfl⟩ := Option.map_eq_some_iff.mp hs
  have hcols : (120 : Int) = 0x7FFF := congrArg Coord.x (h.2 (.endless _) rfl).size
  exact absurd hcols (by decide)

end Corehost
