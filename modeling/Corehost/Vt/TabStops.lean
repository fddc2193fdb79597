import Corehost.Lib.Runs
import Corehost.Vt.RowWidths
import Corehost.Vt.TabTable

/-!
# Tab stops

The table of the tab stops through resizes, HTS, TBC and tabs. A terminal
resizes by a PtySignal or by a message on its side (`pipe_bridge.hpp`), an
application by a message in its output (`vt_msg_dispatch.hpp`).

* `TerminalSession.stays`: the state of a resize by the output that has no end;
* `Tracks`: the table against the stops that the events ask for, which no size
  bounds;
* `tab_stops_iff`: when each state of a run has those stops.
-/

namespace Corehost

open Lib

/-! ## The session -/

/-- A size that a terminal may have, as `handle_message` and
`run_conpty_session` take it. -/
structure TerminalSize where
  size : Coord
  width : 1 ≤ size.x ∧ size.x ≤ 0x7FFF
  height : 1 ≤ size.y ∧ size.y ≤ 0x7FFF

/-- A console with what else `apply_terminal_resize` changes: the main buffer
while another one is active, and `cursor_valid`, `cursor` and `_enter_dest` of
`_terminal`. -/
structure TerminalSession extends VtConsole where
  behind : Option ScreenBuffer := none
  cursorValid : Bool := false
  terminalCursor : Coord := {}
  enterDest : Coord := {}
deriving DecidableEq, Repr

namespace TerminalSession

/-- The console that `run_conpty_session` makes behind `init_tab_stops`. -/
def opened (t : TerminalSize) (tabStops : List Bool) : TerminalSession where
  sb := (ScreenBuffer.ofSize t.size).clear ({} : ConsoleState).defaultAttributes
  state := {}
  screenBufferSize := t.size
  maxWindowSize := t.size
  tabStops := tabStops

/-- `run_conpty_session`, for what it starts the console with. `init_tab_stops`
does not end on every width. -/
def start (t : TerminalSize) : Option TerminalSession := (initTabStops t.size.x).map (opened t)

def screens (s : TerminalSession) : TerminalScreens where
  sb := s.sb
  state := s.state
  screenBufferSize := s.screenBufferSize
  maxWindowSize := s.maxWindowSize
  behind := s.behind
  altScreenCursor := s.altScreenCursor.hasState
  resizedInAltScreen := s.resizedInAltScreen
  cursorValid := s.cursorValid
  terminalCursor := s.terminalCursor
  enterDest := s.enterDest

/-- `apply_terminal_resize`. It does not touch the tab stops. -/
def applyTerminalResize (s : TerminalSession) (newSize : Coord) : TerminalSession :=
  let c := s.screens.applyTerminalResize newSize
  { s with
    toConsole := c.toConsole
    screenBufferSize := c.screenBufferSize
    maxWindowSize := c.maxWindowSize
    resizedInAltScreen := c.resizedInAltScreen
    behind := c.behind
    cursorValid := c.cursorValid
    terminalCursor := c.terminalCursor
    enterDest := c.enterDest }

/-- `process_input_resize_window`, without what it sends. -/
def processInputResizeWindow (s : TerminalSession) (payload : VtPayload) : TerminalSession :=
  let newSize : Coord := ⟨payload.resizeValue.2, payload.resizeValue.1⟩
  if newSize.x ≤ 0 ∨ newSize.y ≤ 0 then s
  else { s with screenBufferSize := newSize, maxWindowSize := newSize, sb := s.sb.resetTo newSize }

end TerminalSession

/-- What changes the size, the cursor or the tab stops. -/
inductive TerminalEvent
  /-- `ResizeWindow` of PtySignal -/
  | signal (t : TerminalSize)
  /-- `resize_window` in the input -/
  | input (payload : VtPayload)
  /-- a message of the output, with the cells or without them -/
  | output (sync : Bool) (id : VtMessageId) (payload : VtPayload)

namespace TerminalSession

/-- The session after an event. A text and a resize by the output can fail to end. -/
def handle (cw : Char32 → Int) (s : TerminalSession) : TerminalEvent → Option TerminalSession
  | .signal t => some (s.applyTerminalResize t.size)
  | .input payload => some (s.processInputResizeWindow payload)
  | .output sync id payload =>
    (s.vtMsgApplyTerminalState cw sync id payload).map fun vt => { s with toVtConsole := vt }

/-- The session while `init_tab_stops` does not end. -/
def stays (s : TerminalSession) : TerminalEvent → Option TerminalSession
  | .output _ .resizeWindow payload =>
    if payload.Overruns then
      some { s with toVtConsole :=
        (s.onConsole (·.setWrap false)).startResize ⟨payload.resizeValue.2, payload.resizeValue.1⟩ }
    else none
  | _ => none

end TerminalSession

/-! ## What a message leaves -/

namespace VtConsole

/-- The same size, viewport and tab stops. -/
structure SameWindow (s s' : VtConsole) : Prop where
  frame : ScreenBuffer.SameFrame s.sb s'.sb
  size : s'.screenBufferSize = s.screenBufferSize
  stops : s'.tabStops = s.tabStops

variable {cw : Char32 → Int} {s s' r : VtConsole}

theorem sameWindow_onConsole {f : Console → Console} (hf : ScreenBuffer.SameFrame s.sb (f s.toConsole).sb) :
    SameWindow s (s.onConsole f) := ⟨hf, rfl, rfl⟩

/-- The messages that change the table of the tab stops. -/
def changesTabStops : VtMessageId → Bool
  | .horizontalTabSet | .tabClearCurrent | .tabClearAll | .resizeWindow => true
  | _ => false

theorem tabStops_applyMessage (s : VtConsole) {id : VtMessageId} (hid : changesTabStops id = false) (payload : VtPayload) :
    (s.applyMessage id payload).tabStops = s.tabStops := by
  have hrestore : s.restoreCursor.tabStops = s.tabStops := by
    unfold restoreCursor
    split <;> rfl
  cases id with
  | horizontalTabSet => cases hid
  | tabClearCurrent => cases hid
  | tabClearAll => cases hid
  | resizeWindow => cases hid
  | restoreCursor => exact hrestore
  | ansiRestoreCursor => exact hrestore
  | useMainBuffer =>
    change s.useMainBuffer.tabStops = s.tabStops
    unfold useMainBuffer
    split <;> rfl
  | _ => rfl

theorem tabStops_message {sync : Bool} {id : VtMessageId} (hid : changesTabStops id = false) {payload : VtPayload}
    (hr : s.vtMsgApplyTerminalState cw sync id payload = some r) : r.tabStops = s.tabStops := by
  have hwrap : (if endsPendingWrap id then s.onConsole (·.setWrap false) else s).tabStops = s.tabStops := by split <;> rfl
  unfold VtConsole.vtMsgApplyTerminalState at hr
  dsimp only at hr
  generalize (if endsPendingWrap id then s.onConsole (·.setWrap false) else s) = t at *
  cases id with
  | text =>
    unfold applyText at hr
    split_ifs at hr
    · obtain ⟨w, -, rfl⟩ := Option.map_eq_some_iff.mp hr
      exact hwrap
    · exact Option.some_inj.mp hr ▸ hwrap
  | lineFeed => exact Option.some_inj.mp hr ▸ hwrap
  | resizeWindow => cases hid
  | _ => exact Option.some_inj.mp hr ▸ (tabStops_applyMessage t hid payload).trans hwrap

theorem sameWindow_message {sync : Bool} {id : VtMessageId} (hid : changesTabStops id = false) {payload : VtPayload}
    (hr : s.vtMsgApplyTerminalState cw sync id payload = some r) : SameWindow s r := by
  have hkeeps := keepsWindow_message (fun hresize => by rw [hresize] at hid; cases hid) hr
  exact ⟨hkeeps.sb.frame, hkeeps.size, tabStops_message hid hr⟩

/-- `terminal_relative_column` is a column of the viewport. -/
theorem relativeColumn_bounds (h : s.Framed) : 0 ≤ s.relativeColumn ∧ s.relativeColumn < s.sb.size.x := by
  obtain ⟨h1, h2, h3, -, -, -⟩ := h.inside
  have := h.width
  have hwidth : i16 (s.sb.viewport.rect.right - s.sb.viewport.rect.left) =
      s.sb.viewport.rect.right - s.sb.viewport.rect.left := i16_of_range (by omega) (by omega)
  unfold relativeColumn
  dsimp only
  rw [hwidth]
  have hspan : 0 ≤ s.sb.viewport.rect.right - s.sb.viewport.rect.left := by omega
  have hle := clamp_le (v := i16 (s.state.position.x - s.sb.viewport.rect.left)) hspan
  exact ⟨le_clamp hspan, by omega⟩

end VtConsole

/-! ## The stops that the events ask for -/

namespace TerminalSession

variable {cw : Char32 → Int} {s s' : TerminalSession}

/-- The stops after an event, over all columns: HTS and TBC at the column of
the cursor, and new stops with the size that an application sets. -/
def stopsAfter (s : TerminalSession) (stops : Nat → Bool) : TerminalEvent → Nat → Bool
  | .output _ .horizontalTabSet _ => Function.update stops s.relativeColumn.toNat true
  | .output _ .tabClearCurrent _ => Function.update stops s.relativeColumn.toNat false
  | .output _ .tabClearAll _ => fun _ => false
  | .output _ .resizeWindow payload =>
    if payload.resizeValue.1 > 0 ∧ payload.resizeValue.2 > 0 then isDefaultStop else stops
  | _ => stops

end TerminalSession

/-- All stops have been cleared since they were initialised. -/
def clearedAfter (cleared : Bool) : TerminalEvent → Bool
  | .output _ .tabClearAll _ => true
  | .output _ .resizeWindow payload => if payload.resizeValue.1 > 0 ∧ payload.resizeValue.2 > 0 then false else cleared
  | _ => cleared

/-- A session with the stops that its events have asked for. -/
structure TabRun where
  session : TerminalSession
  stops : Nat → Bool := isDefaultStop
  cleared : Bool := false

namespace TabRun

variable {cw : Char32 → Int} {r r' : TabRun} {e : TerminalEvent}

def next (cw : Char32 → Int) (r : TabRun) (e : TerminalEvent) : Option TabRun :=
  (r.session.handle cw e).map fun s => ⟨s, r.session.stopsAfter r.stops e, clearedAfter r.cleared e⟩

/-- The columns of the window have the stops asked for, and a tab goes to the
nearest of them. -/
structure Right (r : TabRun) : Prop where
  stops : ∀ c : Nat, c < r.session.screenBufferSize.x → isTabStop r.session.tabStops c = r.stops c
  next : ∀ col : Nat, ∃ n : Nat, nextTabStop r.session.tabStops col = n ∧ IsNextStop r.session.tabStops col n
  prev : ∀ col : Nat, ∃ n : Nat, prevTabStop r.session.tabStops col = n ∧ IsPrevStop r.session.tabStops col n

/-- No default stop has a column from the end of the table up to `width`. -/
def NoDefaultStop (r : TabRun) (width : Int) : Prop :=
  ∀ c : Nat, r.session.tabStops.length ≤ c → c < width → isDefaultStop c = false

/-- A terminal resizes to columns that the table has, unless no default stop
is missing there, HTS does not bring default stops back, and an application
resizes to columns that `init_tab_stops` ends on. -/
def Covered (r : TabRun) : TerminalEvent → Prop
  | .signal t => r.cleared = true ∨ r.NoDefaultStop t.size.x
  | .input payload =>
    payload.resizeValue.1 > 0 ∧ payload.resizeValue.2 > 0 → r.cleared = true ∨ r.NoDefaultStop payload.resizeValue.2
  | .output _ .horizontalTabSet _ => r.NoDefaultStop r.session.relativeColumn
  | .output _ .resizeWindow payload => ¬ payload.Overruns
  | _ => True

/-- The run where a step stays. -/
def stays (r : TabRun) (e : TerminalEvent) : Option TabRun := (r.session.stays e).map fun s => { r with session := s }

/-- The run of a session that starts. -/
def start (t : TerminalSize) : Option TabRun := (TerminalSession.start t).map fun s => { session := s }

/-- The invariant: the table has the stops asked for. No column behind it has
been set or cleared alone, and none of the window behind it has a stop. -/
structure Tracks (r : TabRun) : Prop where
  framed : r.session.Framed
  width : r.session.sb.size.x = r.session.screenBufferSize.x
  short : InShort r.session.tabStops
  inside : ∀ c : Nat, c < r.session.tabStops.length → isTabStop r.session.tabStops c = r.stops c
  behind : ∀ c : Nat, r.session.tabStops.length ≤ c → r.stops c = (isDefaultStop c && !r.cleared)
  covered : r.cleared = true ∨ r.NoDefaultStop r.session.screenBufferSize.x

theorem Tracks.right (h : r.Tracks) : r.Right := by
  refine ⟨fun c hc => ?_, nextTabStop_spec h.short, prevTabStop_spec h.short⟩
  by_cases hlt : c < r.session.tabStops.length
  · exact h.inside c hlt
  · have hge := Nat.le_of_not_lt hlt
    rw [isTabStop_of_ge hge, h.behind c hge]
    rcases h.covered with hcl | hnone
    · rw [hcl, Bool.not_true, Bool.and_false]
    · rw [hnone c hge hc, Bool.false_and]

/-! ## One event -/

theorem framed_of_size {s : TerminalSession} (t : TerminalSize) (hsb : s.sb.size = t.size ∧ s.sb.viewport = .ofBuffer t.size) :
    s.Framed := by
  refine ⟨?_, ?_, ?_⟩
  · rw [hsb.1, hsb.2]
    exact ConsoleViewport.ofBuffer_inside t.width t.height
  · rw [hsb.1]
    exact t.width.2
  · rw [hsb.1]
    exact t.height.2

/-- A new size leaves the table and the stops asked for. -/
theorem Tracks.resized (h : r.Tracks) (t : TerminalSize) {s : TerminalSession} (hsize : s.screenBufferSize = t.size)
    (hsb : s.sb.size = t.size ∧ s.sb.viewport = .ofBuffer t.size) (hstops : s.tabStops = r.session.tabStops)
    (hc : r.cleared = true ∨ r.NoDefaultStop t.size.x) : Tracks ⟨s, r.stops, r.cleared⟩ := by
  refine ⟨framed_of_size t hsb, ?_, ?_, ?_, ?_, ?_⟩
  · rw [hsb.1, hsize]
  · dsimp only
    rw [hstops]
    exact h.short
  · dsimp only
    rw [hstops]
    exact h.inside
  · dsimp only
    rw [hstops]
    exact h.behind
  · unfold NoDefaultStop at hc ⊢
    dsimp only
    rw [hstops, hsize]
    exact hc

theorem applyTerminalResize_size (s : TerminalSession) (t : TerminalSize) :
    (s.applyTerminalResize t.size).screenBufferSize = t.size ∧
      (s.applyTerminalResize t.size).sb.size = t.size ∧ (s.applyTerminalResize t.size).sb.viewport = .ofBuffer t.size := by
  obtain ⟨hsb, -, ⟨hsize, -⟩, -⟩ := TerminalScreens.applyTerminalResize_fields s.screens t.size
  refine ⟨hsize, ?_⟩
  rw [show (s.applyTerminalResize t.size).sb = (s.screens.applyTerminalResize t.size).sb from rfl, hsb]
  exact ScreenBuffer.resetTo_spec _ t.width t.height

/-- The size of a `resize_window` message. -/
def resizeOf (payload : VtPayload) (h : payload.resizeValue.1 > 0 ∧ payload.resizeValue.2 > 0) : TerminalSize where
  size := ⟨payload.resizeValue.2, payload.resizeValue.1⟩
  width := ⟨h.2, Int.le_of_lt_add_one (VtConsole.isShort_resizeValue payload).2.2⟩
  height := ⟨h.1, Int.le_of_lt_add_one (VtConsole.isShort_resizeValue payload).1.2⟩

theorem processInputResizeWindow_pos (s : TerminalSession) {payload : VtPayload}
    (h : payload.resizeValue.1 > 0 ∧ payload.resizeValue.2 > 0) :
    s.processInputResizeWindow payload = { s with
      screenBufferSize := (resizeOf payload h).size
      maxWindowSize := (resizeOf payload h).size
      sb := s.sb.resetTo (resizeOf payload h).size } :=
  if_neg (show ¬ (payload.resizeValue.2 ≤ 0 ∨ payload.resizeValue.1 ≤ 0) by omega)

theorem processInputResizeWindow_neg (s : TerminalSession) {payload : VtPayload}
    (h : ¬ (payload.resizeValue.1 > 0 ∧ payload.resizeValue.2 > 0)) : s.processInputResizeWindow payload = s :=
  if_pos (show payload.resizeValue.2 ≤ 0 ∨ payload.resizeValue.1 ≤ 0 by omega)

/-- A message that leaves the window and the table. -/
theorem Tracks.sameWindow (h : r.Tracks) {vt : VtConsole} (hw : VtConsole.SameWindow r.session.toVtConsole vt) :
    Tracks ⟨{ r.session with toVtConsole := vt }, r.stops, r.cleared⟩ := by
  have hnone : NoDefaultStop ⟨{ r.session with toVtConsole := vt }, r.stops, r.cleared⟩ vt.screenBufferSize.x ↔
      r.NoDefaultStop r.session.screenBufferSize.x := by
    unfold NoDefaultStop
    dsimp only
    rw [hw.stops, hw.size]
  refine ⟨h.framed.of_frame hw.frame rfl, ?_, ?_, ?_, ?_, ?_⟩
  · dsimp only
    rw [hw.frame.size, hw.size]
    exact h.width
  · dsimp only
    rw [hw.stops]
    exact h.short
  · dsimp only
    rw [hw.stops]
    exact h.inside
  · dsimp only
    rw [hw.stops]
    exact h.behind
  · exact h.covered.imp_right hnone.mpr

theorem Tracks.column (h : r.Tracks) :
    ∃ col : Nat, r.session.relativeColumn = col ∧ (col : Int) < r.session.screenBufferSize.x ∧ col < 0x7FFF := by
  obtain ⟨h0, hlt⟩ := VtConsole.relativeColumn_bounds h.framed
  have := h.framed.width
  have := h.width
  exact ⟨r.session.relativeColumn.toNat, by omega, by omega, by omega⟩

/-- HTS, at a column that the table has or that no default stop comes with. -/
theorem Tracks.horizontalTabSet (h : r.Tracks) (hc : r.NoDefaultStop r.session.relativeColumn) :
    Tracks ⟨{ r.session with tabStops := setTabStop r.session.tabStops r.session.relativeColumn },
      Function.update r.stops r.session.relativeColumn.toNat true, r.cleared⟩ := by
  obtain ⟨col, hcol, hlt, hshort⟩ := h.column
  rw [hcol] at hc ⊢
  rw [Int.toNat_natCast]
  obtain ⟨hlen, hstop⟩ := setTabStop_natCast r.session.tabStops col
  have := h.short
  unfold InShort at this
  refine ⟨h.framed.of_frame (.refl _) rfl, h.width, ?_, fun c hc' => ?_, fun c hc' => ?_,
    h.covered.imp_right fun hnone c hge => ?_⟩
  · exact le_of_eq_of_le hlen (by omega)
  · dsimp only at hc' ⊢
    rw [hstop c, Function.update_apply]
    split_ifs with heq hin
    · rfl
    · exact h.inside c hin
    · rw [h.behind c (by omega), hc c (by omega) (by omega), Bool.and_false, Bool.false_and]
  · dsimp only at hc' ⊢
    rw [Function.update_of_ne (by omega), h.behind c (by omega)]
  · exact hnone c (by dsimp only at hge; omega)

/-- TBC 0. A column behind the table has no stop to clear. -/
theorem Tracks.tabClearCurrent (h : r.Tracks) :
    Tracks ⟨{ r.session with tabStops := clearTabStop r.session.tabStops r.session.relativeColumn },
      Function.update r.stops r.session.relativeColumn.toNat false, r.cleared⟩ := by
  obtain ⟨col, hcol, hlt, -⟩ := h.column
  rw [hcol, Int.toNat_natCast, clearTabStop_natCast]
  refine ⟨h.framed.of_frame (.refl _) rfl, h.width, ?_, fun c hc => ?_, fun c hc => ?_,
    h.covered.imp_right fun hnone c hge => ?_⟩
  · exact le_of_eq_of_le List.length_set h.short
  · dsimp only at hc ⊢
    rw [List.length_set] at hc
    rw [isTabStop_set, Function.update_apply]
    split_ifs with hset heq heq
    · rfl
    · exact absurd hset.1 heq
    · exact absurd ⟨heq, heq ▸ hc⟩ hset
    · exact h.inside c hc
  · dsimp only at hc ⊢
    rw [List.length_set] at hc
    rw [Function.update_apply]
    split_ifs with heq
    · have hstop := (h.right.stops c (by omega)).symm.trans (isTabStop_of_ge hc)
      rw [← h.behind c hc, hstop]
    · exact h.behind c hc
  · dsimp only at hge
    rw [List.length_set] at hge
    exact hnone c hge

/-- TBC 3. -/
theorem Tracks.tabClearAll (h : r.Tracks) :
    Tracks ⟨{ r.session with tabStops := clearAllTabStops r.session.tabStops }, fun _ => false, true⟩ := by
  refine ⟨h.framed.of_frame (.refl _) rfl, h.width, ?_, fun c _ => isTabStop_clearAllTabStops _ c, fun c _ => ?_, .inl rfl⟩
  · exact le_of_eq_of_le (length_clearAllTabStops _) h.short
  · rw [Bool.not_true, Bool.and_false]

/-- A table that is new and as wide as the window. -/
theorem tracks_initTabStops (t : TerminalSize) {s : TerminalSession} (hsize : s.screenBufferSize = t.size)
    (hsb : s.sb.size = t.size ∧ s.sb.viewport = .ofBuffer t.size) (hstops : initTabStops t.size.x = some s.tabStops) :
    Tracks ⟨s, isDefaultStop, false⟩ := by
  obtain ⟨-, hlen, hdefault⟩ := initTabStops_spec hstops
  have hwidth := t.width
  refine ⟨framed_of_size t hsb, ?_, ?_, fun c hc => ?_, fun c _ => ?_, .inr fun c hge hlt => ?_⟩
  · rw [hsb.1, hsize]
  · unfold InShort
    dsimp only
    omega
  · exact hdefault c hc
  · rw [Bool.not_false, Bool.and_true]
  · dsimp only at hge hlt
    rw [hsize] at hlt
    omega

theorem tracks_start {t : TerminalSize} (hr : r ∈ start t) : r.Tracks := by
  obtain ⟨s, hs, rfl⟩ := Option.map_eq_some_iff.mp hr
  obtain ⟨tabStops, hstops, rfl⟩ := Option.map_eq_some_iff.mp hs
  exact tracks_initTabStops t rfl ⟨rfl, rfl⟩ hstops

/-- A session starts with the widths that `init_tab_stops` ends on. -/
theorem exists_start_iff {t : TerminalSize} : (∃ r, r ∈ start t) ↔ t.size.x ≤ widestTabbed := by
  change (∃ r, start t = some r) ↔ _
  rw [← Option.isSome_iff_exists, start, TerminalSession.start, Option.isSome_map, Option.isSome_map,
    Option.isSome_iff_ne_none, ne_eq, initTabStops_eq_none_iff, not_lt]

/-- `resize_window` of the output. -/
theorem Tracks.resizeWindow (h : r.Tracks) (payload : VtPayload) {vt : VtConsole}
    (hvt : (r.session.onConsole (·.setWrap false)).resizeWindow payload.resizeValue.1 payload.resizeValue.2 = some vt) :
    Tracks ⟨{ r.session with toVtConsole := vt },
      if payload.resizeValue.1 > 0 ∧ payload.resizeValue.2 > 0 then isDefaultStop else r.stops,
      if payload.resizeValue.1 > 0 ∧ payload.resizeValue.2 > 0 then false else r.cleared⟩ := by
  unfold VtConsole.resizeWindow at hvt
  by_cases hpos : payload.resizeValue.1 > 0 ∧ payload.resizeValue.2 > 0
  · rw [if_pos hpos] at hvt
    obtain ⟨tabStops, hstops, rfl⟩ := Option.map_eq_some_iff.mp hvt
    simp only [if_pos hpos]
    have hsb := ScreenBuffer.resetTo_spec r.session.sb (resizeOf payload hpos).width (resizeOf payload hpos).height
    exact tracks_initTabStops (resizeOf payload hpos) rfl hsb hstops
  · rw [if_neg hpos] at hvt
    obtain rfl := Option.some_inj.mp hvt
    simp only [if_neg hpos]
    exact h.sameWindow (VtConsole.sameWindow_onConsole (.refl _))

theorem next_output {sync : Bool} {id : VtMessageId} {payload : VtPayload} :
    r.next cw (.output sync id payload) =
      (r.session.vtMsgApplyTerminalState cw sync id payload).map fun vt =>
        ⟨{ r.session with toVtConsole := vt }, r.session.stopsAfter r.stops (.output sync id payload),
          clearedAfter r.cleared (.output sync id payload)⟩ := Option.map_map ..

theorem Tracks.next (h : r.Tracks) (hc : r.Covered e) (hr : r.next cw e = some r') : r'.Tracks := by
  cases e with
  | signal t =>
    obtain rfl := Option.some_inj.mp hr
    obtain ⟨hsize, hsb⟩ := applyTerminalResize_size r.session t
    exact h.resized t hsize hsb rfl hc
  | input payload =>
    obtain rfl := Option.some_inj.mp hr
    by_cases hpos : payload.resizeValue.1 > 0 ∧ payload.resizeValue.2 > 0
    · rw [processInputResizeWindow_pos r.session hpos]
      have hsb := ScreenBuffer.resetTo_spec r.session.sb (resizeOf payload hpos).width (resizeOf payload hpos).height
      exact h.resized (resizeOf payload hpos) rfl hsb rfl (hc hpos)
    · rw [processInputResizeWindow_neg r.session hpos]
      exact h
  | output sync id payload =>
    rw [next_output] at hr
    obtain ⟨vt, hvt, rfl⟩ := Option.map_eq_some_iff.mp hr
    cases id with
    | horizontalTabSet =>
      obtain rfl := Option.some_inj.mp hvt
      exact h.horizontalTabSet hc
    | tabClearCurrent =>
      obtain rfl := Option.some_inj.mp hvt
      exact h.tabClearCurrent
    | tabClearAll =>
      obtain rfl := Option.some_inj.mp hvt
      exact h.tabClearAll
    | resizeWindow => exact h.resizeWindow payload hvt
    | _ => exact h.sameWindow (VtConsole.sameWindow_message rfl hvt)

/-- A column behind the table that is not a stop in a new size has no stop that was asked for. -/
theorem noDefaultStop_of_right (h : r.Tracks) {s : TerminalSession} (hstops : s.tabStops = r.session.tabStops)
    (hright : Right ⟨s, r.stops, r.cleared⟩) : r.cleared = true ∨ r.NoDefaultStop s.screenBufferSize.x := by
  cases hcl : r.cleared with
  | true => exact .inl rfl
  | false =>
    refine .inr fun c hge hlt => ?_
    have hstop := hright.stops c hlt
    dsimp only at hstop
    rw [hstops, isTabStop_of_ge hge, h.behind c hge, hcl, Bool.not_false, Bool.and_true] at hstop
    exact hstop.symm

/-- A step stays exactly when a resize by the output overruns. -/
theorem stays_output_resizeWindow {sync : Bool} {payload : VtPayload} :
    r.stays (.output sync .resizeWindow payload) = none ↔ ¬ payload.Overruns := by
  unfold stays
  rw [Option.map_eq_none_iff, TerminalSession.stays]
  split_ifs with hover
  · exact iff_of_false not_false (not_not.mpr hover)
  · exact iff_of_true rfl hover

theorem stays_of_covered (hc : r.Covered e) : r.stays e = none := by
  cases e with
  | signal t => rfl
  | input payload => rfl
  | output sync id payload =>
    cases id with
    | resizeWindow => exact stays_output_resizeWindow.mpr hc
    | _ => rfl

theorem Tracks.covered_of_right (h : r.Tracks) (hstays : r.stays e = none)
    (hright : ∀ r', r.next cw e = some r' → r'.Right) : r.Covered e := by
  cases e with
  | signal t =>
    have hstops : (r.session.applyTerminalResize t.size).tabStops = r.session.tabStops := rfl
    have hr := noDefaultStop_of_right h hstops (hright ⟨r.session.applyTerminalResize t.size, r.stops, r.cleared⟩ rfl)
    rwa [(applyTerminalResize_size r.session t).1] at hr
  | input payload =>
    intro hpos
    have hr := noDefaultStop_of_right h (by rw [processInputResizeWindow_pos r.session hpos])
      (hright ⟨r.session.processInputResizeWindow payload, r.stops, r.cleared⟩ rfl)
    rwa [processInputResizeWindow_pos r.session hpos] at hr
  | output sync id payload =>
    cases id with
    | horizontalTabSet =>
      obtain ⟨col, hcol, hlt, -⟩ := h.column
      intro c hge hc
      have hafter := (hright ⟨{ r.session with tabStops := setTabStop r.session.tabStops r.session.relativeColumn },
        Function.update r.stops r.session.relativeColumn.toNat true, r.cleared⟩ rfl).stops c
        (show (c : Int) < r.session.screenBufferSize.x by omega)
      dsimp only at hafter
      rw [hcol] at hafter hc
      rw [(setTabStop_natCast r.session.tabStops col).2, if_neg (by omega), if_neg (by omega), decide_eq_true (by omega),
        Bool.true_and, Int.toNat_natCast, Function.update_of_ne (by omega)] at hafter
      rw [hafter, ← h.right.stops c (by omega), isTabStop_of_ge hge]
    | resizeWindow => exact stays_output_resizeWindow.mp hstays
    | _ => trivial

end TabRun

/-! ## Every run -/

/-- A session starts, and in a run from there no step stays in `init_tab_stops`
and each one leaves the window with the tab stops that the events ask for, and
tabs to the nearest of them, exactly when `init_tab_stops` ends on the width and
each step is covered: a terminal that resizes does not uncover default stops
behind the table, HTS does not bring them back, and the output does not resize
too wide. -/
theorem tab_stops_iff (cw : Char32 → Int) (t : TerminalSize) (events : List TerminalEvent) :
    (∃ r ∈ TabRun.start t,
        EveryState (Course.next (TabRun.next cw) TabRun.stays) (Course.Ended TabRun.Right) (.ended r) events) ↔
      t.size.x ≤ widestTabbed ∧ ∀ r ∈ TabRun.start t, EveryStep (TabRun.next cw) TabRun.Covered r events := by
  have hrun (r : TabRun) (hr : r ∈ TabRun.start t) :
      EveryState (Course.next (TabRun.next cw) TabRun.stays) (Course.Ended TabRun.Right) (.ended r) events ↔
        EveryStep (TabRun.next cw) TabRun.Covered r events :=
    everyState_ended_iff (fun _ h => h.right) (fun _ _ _ h hc hr => h.next hc hr)
      (fun _ _ _ hc => TabRun.stays_of_covered hc) (fun _ _ h hstays hright => h.covered_of_right hstays hright) events
      (TabRun.tracks_start hr)
  constructor
  · rintro ⟨r, hr, h⟩
    refine ⟨TabRun.exists_start_iff.mp ⟨r, hr⟩, fun r' hr' => ?_⟩
    exact (hrun r' hr').mp (Option.mem_unique hr hr' ▸ h)
  · rintro ⟨hwidth, h⟩
    obtain ⟨r, hr⟩ := TabRun.exists_start_iff.mpr hwidth
    exact ⟨r, hr, (hrun r hr).mpr (h r hr)⟩

def standardSize : TerminalSize := ⟨⟨120, 30⟩, by decide, by decide⟩

def wideSize : TerminalSize := ⟨⟨200, 30⟩, by decide, by decide⟩

/-- A terminal of 120 columns that gets 200 of them has no stop at column 120. -/
theorem resize_uncovers_tab_stops :
    ∃ r ∈ TabRun.start standardSize, ¬ EveryState (TabRun.next fun _ => 1) TabRun.Right r [.signal wideSize] := by
  obtain ⟨r, hr⟩ := TabRun.exists_start_iff.mpr (show standardSize.size.x ≤ widestTabbed by decide)
  refine ⟨r, hr, fun h => ?_⟩
  obtain ⟨-, hnext⟩ := h
  obtain ⟨s, hs, rfl⟩ := Option.map_eq_some_iff.mp hr
  obtain ⟨tabStops, hstops, rfl⟩ := Option.map_eq_some_iff.mp hs
  obtain ⟨-, hlen, -⟩ := initTabStops_spec hstops
  have hright : TabRun.Right
      ⟨(TerminalSession.opened standardSize tabStops).applyTerminalResize wideSize.size, isDefaultStop, false⟩ :=
    hnext _ rfl
  generalize hs : (TerminalSession.opened standardSize tabStops).applyTerminalResize wideSize.size = s at hright
  have hwidth : s.screenBufferSize = wideSize.size := hs ▸ (TabRun.applyTerminalResize_size _ wideSize).1
  have htable : s.tabStops = tabStops := hs ▸ rfl
  have hstop := hright.stops 120 (show (120 : Int) < s.screenBufferSize.x by rw [hwidth]; decide)
  dsimp only at hstop
  rw [htable, isTabStop_of_ge (by rw [hlen]; decide)] at hstop
  exact absurd hstop (by decide)

end Corehost
