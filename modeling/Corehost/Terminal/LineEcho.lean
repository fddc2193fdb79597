import Corehost.Input.LineContent
import Corehost.Terminal.Painting

/-!
# The echo of a line

The model of the line editor of ReadConsole with what it sends to the terminal
(`edit_insert_char` to `load_history_line`, `pipe_bridge.hpp`) and the columns that
it keeps for it (`terminal_cursor_state.hpp`). `EchoRun` is the edited line, these
columns and the display.

* `Display.echoed`: a display whose line of the cursor is a prompt and a text;
* `receive_typed`, `receive_delete`, `receive_back`, `receive_eraseRest`,
  `receive_column`: what the editor sends turns such a display into another one;
* `Echoes.press`: each key does to the display what it does to the line;
* `line_echoed`: for every sequence of keys.
-/

namespace Corehost

open Lib
open ScreenBufferRow (Cell runCells overwriteCells overwriteCell Closed)

/-! ## The model -/

/-- `terminal_cursor_state`, without what it keeps of an Enter and of the question for the cursor. -/
structure TerminalCursorState where
  cursor : Coord := {}
  cursorValid : Bool := false
  inputColumnStart : Int := 0
  inputColumnEnd : Int := 0
deriving DecidableEq, Repr

namespace TerminalCursorState

variable (t : TerminalCursorState)

def advance : TerminalCursorState :=
  if !t.cursorValid then t
  else
    let x := i16 (t.cursor.x + 1)
    { t with
      cursor := { t.cursor with x := x }
      inputColumnEnd := if x > t.inputColumnEnd then x else t.inputColumnEnd }

def retreat : TerminalCursorState :=
  if !t.cursorValid then t
  else if t.cursor.x > t.inputColumnStart then { t with cursor := { t.cursor with x := i16 (t.cursor.x - 1) } }
  else t

def columnForOffset (offset : Nat) : Int := i16 (t.inputColumnStart + offset)

def setCursorX (x : Int) : TerminalCursorState := if t.cursorValid then { t with cursor := { t.cursor with x := x } } else t

def resetBounds (x : Int) : TerminalCursorState := { t with inputColumnStart := x, inputColumnEnd := x }

def extendBounds : TerminalCursorState := { t with inputColumnEnd := i16 (t.inputColumnEnd + 1) }

def retractBounds : TerminalCursorState :=
  if t.inputColumnEnd > t.inputColumnStart then { t with inputColumnEnd := i16 (t.inputColumnEnd - 1) } else t

def setBoundsEndForLength (length : Nat) : TerminalCursorState :=
  { t with inputColumnEnd := i16 (t.inputColumnStart + length) }

end TerminalCursorState

/-- The line that is edited, `_terminal`, and the display that receives what is sent. -/
structure EchoRun where
  line : CookedLine := {}
  terminal : TerminalCursorState := {}
  display : Display

namespace EchoRun

variable (cw : Char32 → Int) (r : EchoRun)

def send (text : List Char32) : EchoRun := { r with display := r.display.receive cw text }

def cupTo (row col : Int) : EchoRun := r.send cw (vtWriteCup row col)

/-- `cooked_at_end`. -/
def cookedAtEnd : Bool := r.line.cursor ≥ r.line.buf.length

def repaintSuffix : EchoRun := r.send cw ((r.line.buf.drop r.line.cursor).flatMap vtWriteCell)

def repaintFullLine : EchoRun :=
  if !r.terminal.cursorValid then r
  else
    let r := r.cupTo cw r.terminal.cursor.y r.terminal.inputColumnStart
    let r := r.send cw (chars ['\x1b', '[', 'K'] ++ r.line.buf.flatMap vtWriteCell)
    { r with terminal := r.terminal.setCursorX r.terminal.inputColumnEnd }

/-- A line out of the history, which is in `_cooked_buf` with the cursor behind it. -/
def loadHistoryLine : EchoRun :=
  { r with terminal := r.terminal.setBoundsEndForLength r.line.buf.length }.repaintFullLine cw

/-- `edit_insert_char`: `raw` is the byte that the character came in. -/
def editInsertChar (ch raw : Char32) : EchoRun :=
  let r := { r with line := r.line.editInsert ch, terminal := r.terminal.extendBounds }
  if !r.terminal.cursorValid then r
  else if r.cookedAtEnd then
    let r := r.send cw [raw]
    { r with terminal := r.terminal.advance }
  else
    let sv := r.terminal.cursor
    let r := ((r.send cw [raw]).repaintSuffix cw).cupTo cw sv.y (i16 (sv.x + 1))
    { r with terminal := r.terminal.setCursorX (i16 (sv.x + 1)) }

def editInsertCodepoint (ch : Char32) : EchoRun :=
  let r := { r with line := r.line.editInsert ch, terminal := r.terminal.extendBounds }
  if !r.terminal.cursorValid then r
  else if r.cookedAtEnd then
    let r := r.send cw (vtWriteCell ch)
    { r with terminal := r.terminal.advance }
  else
    let sv := r.terminal.cursor
    let r := r.send cw (vtWriteCell ch)
    let r := { r with terminal := r.terminal.advance }
    let r := (r.repaintSuffix cw).cupTo cw sv.y (i16 (sv.x + 1))
    { r with terminal := r.terminal.setCursorX (i16 (sv.x + 1)) }

def editBackspace : EchoRun :=
  if r.line.cursor = 0 then { r with line := r.line.editBackspace }
  else
    let r := { r with line := r.line.editBackspace, terminal := r.terminal.retractBounds }
    if !r.terminal.cursorValid then r
    else
      let r := r.send cw (chars ['\x1b', '[', 'D'] ++ chars ['\x1b', '[', 'P'])
      let r := { r with terminal := r.terminal.retreat }
      if !r.cookedAtEnd then (r.repaintSuffix cw).cupTo cw r.terminal.cursor.y r.terminal.cursor.x else r

/-- The display loses the character also where the cursor of the terminal is not known. -/
def editDelete : EchoRun :=
  if r.line.cursor ≥ r.line.buf.length then { r with line := r.line.editDelete }
  else
    let r := { r with line := r.line.editDelete, terminal := r.terminal.retractBounds }
    r.send cw (chars ['\x1b', '[', 'P'])

/-- The cursor of the terminal goes to a column of its line. -/
def moveTo (col : Int) : EchoRun :=
  if r.terminal.cursorValid then
    let r := r.cupTo cw r.terminal.cursor.y col
    { r with terminal := r.terminal.setCursorX col }
  else r

def editMoveLeft : EchoRun :=
  if r.line.cursor > 0 then
    let r := { r with line := r.line.editMoveLeft }
    r.moveTo cw (r.terminal.columnForOffset r.line.cursor)
  else r

def editMoveRight : EchoRun :=
  if r.line.cursor < r.line.buf.length then
    let r := { r with line := r.line.editMoveRight }
    r.moveTo cw (r.terminal.columnForOffset r.line.cursor)
  else r

def editHome : EchoRun := { r with line := r.line.editHome }.moveTo cw r.terminal.inputColumnStart

def editEnd : EchoRun := { r with line := r.line.editEnd }.moveTo cw r.terminal.inputColumnEnd

def historyUp : EchoRun :=
  if (r.line.history.browseUp r.line.buf).isNone then r else { r with line := r.line.historyUp }.loadHistoryLine cw

def historyDown : EchoRun :=
  if r.line.history.browseDown.isNone then r else { r with line := r.line.historyDown }.loadHistoryLine cw

end EchoRun

/-- A key of the editor. A character that came in one byte is echoed as this byte. -/
inductive EchoKey where
  | ascii (ch : Char32) (h : ch ≤ 0x7F)
  | key (k : EditKey)

namespace EchoKey

def edit : EchoKey → EditKey
  | .ascii ch _ => .insert ch
  | .key k => k

end EchoKey

def EchoRun.press (cw : Char32 → Int) (r : EchoRun) : EchoKey → EchoRun
  | .ascii ch _ => r.editInsertChar cw ch ch
  | .key (.insert ch) => r.editInsertCodepoint cw ch
  | .key .backspace => r.editBackspace cw
  | .key .delete => r.editDelete cw
  | .key .left => r.editMoveLeft cw
  | .key .right => r.editMoveRight cw
  | .key .home => r.editHome cw
  | .key .end_ => r.editEnd cw
  | .key .historyUp => r.historyUp cw
  | .key .historyDown => r.historyDown cw

/-- A line is read behind the cursor: the console knows where it is, and the line is empty. -/
def EchoRun.start (history : CommandHistory) (d : Display) : EchoRun where
  line := { history := history }
  terminal := TerminalCursorState.resetBounds { cursor := ⟨d.col, d.row⟩, cursorValid := true } d.col
  display := d

/-! ## A line on the display -/

/-- A character in one column. -/
def plainCell (pen : UInt16) (ch : Char32) : Cell := ⟨[ch], 1, ⟨pen⟩⟩

/-- A text, and spaces up to `n` characters. -/
def padded (n : Nat) (text : List Char32) : List Char32 := text ++ List.replicate (n - text.length) 0x20

section Padded

variable {n k : Nat} {text : List Char32}

theorem length_padded (h : text.length ≤ n) : (padded n text).length = n := by
  simp [padded, Nat.add_sub_cancel' h]

/-- Characters are written over a part of the text, or over its end. -/
theorem padded_write (xs : List Char32) (hk : k ≤ text.length) (h : (text.take k ++ xs ++ text.drop (k + xs.length)).length ≤ n) :
    (padded n text).take k ++ xs ++ (padded n text).drop (k + xs.length) =
      padded n (text.take k ++ xs ++ text.drop (k + xs.length)) := by
  simp only [List.length_append, List.length_take, List.length_drop] at h
  simp only [padded, List.take_append_of_le_length hk, List.append_assoc, List.append_cancel_left_eq, List.drop_append,
    List.drop_replicate, List.length_append, List.length_take, List.length_drop]
  congr 1
  omega

theorem padded_eraseIdx (hk : k < text.length) (h : text.length ≤ n) :
    (padded n text).eraseIdx k ++ [0x20] = padded n (text.eraseIdx k) := by
  rw [padded, List.eraseIdx_append_of_lt_length hk, List.append_assoc, ← List.replicate_succ', padded, List.length_eraseIdx_of_lt hk]
  congr 2
  omega

end Padded

namespace Display

variable {cw : Char32 → Int} {d : Display} {prompt : List Cell} {u : List Char32} {k : Nat}

/-- The display with a prompt and a text in the line of its cursor, which is `k` characters behind the prompt. -/
def echoed (d : Display) (prompt : List Cell) (u : List Char32) (k : Nat) : Display :=
  { d with
    lines := d.lines.set d.row (prompt ++ u.map (plainCell d.pen))
    col := prompt.length + k
    wrap := false }

theorem set_modify {α : Type*} (xs : List α) (i : Nat) (a : α) (f : α → α) : (xs.set i a).modify i f = xs.set i (f a) := by
  refine List.ext_getElem? fun j => ?_
  rw [List.getElem?_modify, List.getElem?_set, List.getElem?_set]
  split_ifs <;> simp

/-- Plain cells, written over plain cells. -/
theorem overwriteCells_plain (hprompt : Closed prompt) (pen : UInt16) (xs : List Char32) (hk : k + xs.length ≤ u.length) :
    overwriteCells (prompt ++ u.map (plainCell pen)) (prompt.length + k) (xs.map (plainCell pen)) =
      prompt ++ (u.take k ++ xs ++ u.drop (k + xs.length)).map (plainCell pen) := by
  refine List.ext_getElem? fun c => ?_
  rw [ScreenBufferRow.getElem?_overwriteCells]
  rcases Nat.lt_or_ge c prompt.length with hc | hc
  · rw [List.getElem?_append_left hc, List.getElem?_append_left hc, List.getElem?_eq_getElem hc, Option.map_some, overwriteCell,
      if_neg (by omega), if_neg, if_neg (by omega)]
    rintro ⟨hlast, -, h2⟩
    refine hprompt prompt[c] ?_ h2
    rw [List.getLast?_eq_getElem?, ← List.getElem?_eq_getElem hc]
    congr 1
    omega
  · obtain ⟨i, rfl⟩ := Nat.exists_eq_add_of_le hc
    rw [List.getElem?_append_right (by omega), List.getElem?_append_right (by omega), Nat.add_sub_cancel_left, List.getElem?_map,
      List.getElem?_map, Option.map_map]
    have hplain (ch : Char32) : overwriteCell (prompt.length + k) (xs.map (plainCell pen)) (prompt.length + i) (plainCell pen ch) =
        if k ≤ i ∧ i < k + xs.length then plainCell pen (xs.getD (i - k) ch) else plainCell pen ch := by
      rw [overwriteCell, List.length_map]
      by_cases hin : k ≤ i ∧ i < k + xs.length
      · rw [if_pos (by omega), if_pos hin, show prompt.length + i - (prompt.length + k) = i - k by omega,
          List.getD_eq_getElem?_getD, List.getElem?_map, List.getElem?_eq_getElem (by omega), List.getD_eq_getElem?_getD,
          List.getElem?_eq_getElem (by omega)]
        rfl
      · rw [if_neg (by omega), if_neg (by simp [plainCell]), if_neg (by simp [plainCell]), if_neg hin]
    simp only [Function.comp_def, hplain]
    rcases Nat.lt_or_ge i k with h1 | h1
    · rw [List.append_assoc, List.getElem?_append_left (by simp; omega), List.getElem?_take_of_lt h1]
      simp only [show ¬ (k ≤ i ∧ i < k + xs.length) by omega, if_false]
    · rcases Nat.lt_or_ge i (k + xs.length) with h2 | h2
      · rw [List.getElem?_append_left (by simp; omega), List.getElem?_append_right (by simp; omega)]
        simp only [h1, h2, and_self, if_true, List.length_take]
        rw [show min k u.length = k by omega, List.getElem?_eq_getElem (by omega), List.getElem?_eq_getElem (by omega),
          Option.map_some, Option.map_some, List.getD_eq_getElem?_getD, List.getElem?_eq_getElem (by omega)]
        rfl
      · rw [List.getElem?_append_right (by simp; omega), List.getElem?_drop]
        simp only [show ¬ (k ≤ i ∧ i < k + xs.length) by omega, if_false, List.length_append, List.length_take]
        congr 2
        omega

/-- The display measures the character as one column, and it is no control character. -/
def IsPlain (cw : Char32 → Int) (ch : Char32) : Prop := isC0OrDel ch = false ∧ widthColumns cw ch = 1

theorem print_echoed (hprompt : Closed prompt) (hwidth : prompt.length + u.length = d.width) {ch : Char32} (hch : IsPlain cw ch)
    (hk : k + 1 < u.length) : (d.echoed prompt u k).print cw ch = d.echoed prompt (u.take k ++ [ch] ++ u.drop (k + 1)) (k + 1) := by
  rw [print_eq (n := 1) hch.2 rfl (by simp only [echoed]; omega)]
  have hcell : runCells ⟨d.pen⟩ [(ch, 1)] = [ch].map (plainCell d.pen) := rfl
  unfold put echoed
  dsimp only
  rw [hcell, set_modify, overwriteCells_plain hprompt d.pen [ch] (by simp; omega), decide_eq_false (by omega),
    show min (prompt.length + k + 1) (d.width - 1) = prompt.length + (k + 1) by omega]
  rfl

theorem foldl_print_echoed (hprompt : Closed prompt) : ∀ (xs u : List Char32) (k : Nat), (∀ ch ∈ xs, IsPlain cw ch) →
    prompt.length + u.length = d.width → k + xs.length < u.length →
    xs.foldl (print cw) (d.echoed prompt u k) =
      d.echoed prompt (u.take k ++ xs ++ u.drop (k + xs.length)) (k + xs.length)
  | [], u, k, _, _, _ => by simp
  | ch :: xs, u, k, hplain, hwidth, hk => by
    obtain ⟨hch, hplain⟩ := List.forall_mem_cons.mp hplain
    rw [List.length_cons] at hk
    rw [List.foldl_cons, print_echoed hprompt hwidth hch (by omega), foldl_print_echoed hprompt xs _ (k + 1) hplain
      (by simp; omega) (by simp; omega)]
    have htake : (u.take k ++ [ch] ++ u.drop (k + 1)).take (k + 1) = u.take k ++ [ch] :=
      List.take_left' (by simp; omega)
    have hdrop : (u.take k ++ [ch] ++ u.drop (k + 1)).drop (k + 1 + xs.length) = u.drop (k + 1 + xs.length) := by
      rw [← List.drop_drop, List.drop_left' (by simp; omega), List.drop_drop]
    rw [htake, hdrop, List.length_cons, List.append_assoc (u.take k), List.singleton_append,
      show k + 1 + xs.length = k + (xs.length + 1) by omega]

variable (cw) in
/-- Characters are printed over a part of the text. -/
theorem receive_typed (hprompt : Closed prompt) {xs : List Char32} (hplain : ∀ ch ∈ xs, IsPlain cw ch)
    (hwidth : prompt.length + u.length = d.width) (hk : k + xs.length < u.length) :
    Complete xs ∧ (d.echoed prompt u k).receive cw xs =
      d.echoed prompt (u.take k ++ xs ++ u.drop (k + xs.length)) (k + xs.length) := by
  obtain ⟨hcomplete, hreceive⟩ := receive_text cw (fun ch hch => (hplain ch hch).1) (d.echoed prompt u k)
  exact ⟨hcomplete, hreceive.trans (foldl_print_echoed hprompt xs u k hplain hwidth hk)⟩

theorem sends_editing : PartialScroll.Sends (chars ['\x1b', '[', 'D']) (.cursorBackward, .count 1) ∧
    PartialScroll.Sends (chars ['\x1b', '[', 'P']) (.deleteCharacters, .count 1) ∧
    PartialScroll.Sends (chars ['\x1b', '[', 'K']) (.eraseInLine, .eraseMode 0) :=
  ⟨⟨⟨.cursorBackward, { payload := .count 1 }, chars ['\x1b', '[', 'D']⟩, rfl, by decide, by decide⟩,
    ⟨⟨.deleteCharacters, { payload := .count 1 }, chars ['\x1b', '[', 'P']⟩, rfl, by decide, by decide⟩,
    ⟨⟨.eraseInLine, { payload := .eraseMode 0 }, chars ['\x1b', '[', 'K']⟩, rfl, by decide, by decide⟩⟩

variable (cw) in
/-- A character is taken out of the text. -/
theorem receive_delete (hprompt : Closed prompt) (hk : k < u.length) :
    Complete (chars ['\x1b', '[', 'P']) ∧ (d.echoed prompt u k).receive cw (chars ['\x1b', '[', 'P']) =
      d.echoed prompt (u.eraseIdx k ++ [0x20]) k := by
  obtain ⟨hcomplete, hreceive⟩ := receive_sends cw sends_editing.2.1 (d.echoed prompt u k)
  refine ⟨hcomplete, hreceive.trans ?_⟩
  have hline : deleteCells (prompt ++ u.map (plainCell d.pen)) (prompt.length + k) 1 ⟨[0x20], 1, ⟨d.pen⟩⟩ =
      prompt ++ (u.eraseIdx k ++ [0x20]).map (plainCell d.pen) := by
    have hmin : min 1 ((prompt ++ u.map (plainCell d.pen)).length - (prompt.length + k)) = 1 := by simp; omega
    have hblank : List.replicate 1 (⟨[0x20], 1, ⟨d.pen⟩⟩ : Cell) = [0x20].map (plainCell d.pen) := rfl
    have htake : (u.take k ++ [0x20] ++ u.drop (k + 1)).take k = u.take k := by
      rw [List.append_assoc, List.take_left' (by simp; omega)]
    have hdrop : (u.take k ++ [0x20] ++ u.drop (k + 1)).drop (k + 1) = u.drop (k + 1) := List.drop_left' (by simp; omega)
    rw [deleteCells, hmin, hblank, overwriteCells_plain hprompt d.pen [0x20] (by simp; omega), List.length_singleton,
      List.take_length_add_append, Nat.add_assoc, List.drop_length_add_append, ← List.map_take, ← List.map_drop, htake, hdrop, List.eraseIdx_eq_take_drop_succ]
    simp
  unfold execute echoed
  dsimp only
  rw [set_modify, show (1 : Int).toNat = 1 from rfl, hline]

variable (cw d prompt) in
theorem receive_back (hk : 0 < k) : Complete (chars ['\x1b', '[', 'D']) ∧
    (d.echoed prompt u k).receive cw (chars ['\x1b', '[', 'D']) = d.echoed prompt u (k - 1) := by
  obtain ⟨hcomplete, hreceive⟩ := receive_sends cw sends_editing.1 (d.echoed prompt u k)
  refine ⟨hcomplete, hreceive.trans ?_⟩
  unfold execute echoed
  dsimp only
  rw [show (1 : Int).toNat = 1 from rfl, Nat.add_sub_assoc hk]

variable (cw) in
/-- The text is erased from its beginning on. -/
theorem receive_eraseRest (hprompt : Closed prompt) (hwidth : prompt.length + u.length = d.width) :
    Complete (chars ['\x1b', '[', 'K']) ∧ (d.echoed prompt u 0).receive cw (chars ['\x1b', '[', 'K']) =
      d.echoed prompt (List.replicate u.length 0x20) 0 := by
  obtain ⟨hcomplete, hreceive⟩ := receive_sends cw sends_editing.2.2 (d.echoed prompt u 0)
  refine ⟨hcomplete, hreceive.trans ?_⟩
  have hblanks : (d.echoed prompt u 0).blanks (d.echoed prompt u 0).width = (List.replicate u.length 0x20).map (plainCell d.pen) := by
    rw [blanks, List.map_replicate]
    congr 1
    simp only [echoed]
    omega
  have hline := overwriteCells_plain (u := u) (k := 0) hprompt d.pen (List.replicate u.length 0x20) (by simp)
  rw [← hblanks] at hline
  unfold execute put
  dsimp only [echoed] at hline ⊢
  rw [set_modify, hline]
  simp

variable (cw) in
/-- The cursor goes to another place of the line. -/
theorem receive_column (hrow : d.row < d.lines.length) (hlines : d.lines.length ≤ 0x7FFF) {col : Int} (k' : Nat)
    (hcol : col = prompt.length + k') (hk : prompt.length + k' < d.width) (hwidth : d.width ≤ 0x7FFF) :
    Complete (vtWriteCup d.row col) ∧ (d.echoed prompt u k).receive cw (vtWriteCup d.row col) = d.echoed prompt u k' := by
  obtain ⟨hcomplete, hreceive⟩ := receive_sends cw (@sends_cup d.row col (by omega) (by omega)) (d.echoed prompt u k)
  refine ⟨hcomplete, hreceive.trans ?_⟩
  rw [execute_position]
  unfold echoed
  dsimp only
  rw [List.length_set, show min (↑d.row + 1 - 1 : Int).toNat (d.lines.length - 1) = d.row by omega,
    show min (col + 1 - 1).toNat (d.width - 1) = prompt.length + k' by omega]

end Display

open Display (IsPlain)

theorem flatMap_vtWriteCell {cw : Char32 → Int} {xs : List Char32} (h : ∀ ch ∈ xs, IsPlain cw ch) : xs.flatMap vtWriteCell = xs := by
  induction xs with
  | nil => rfl
  | cons ch xs ih =>
    obtain ⟨hch, hxs⟩ := List.forall_mem_cons.mp h
    have hne : ch ≠ 0 := fun h0 => by
      rw [h0] at hch
      exact absurd hch.1 (by decide)
    rw [List.flatMap_cons, ih hxs, vtWriteCell, if_neg hne]
    rfl

/-! ## What the console knows of it -/

/-- A prompt that ends with a whole glyph, in a line of the display. -/
structure Display.Prompts (d : Display) (prompt : List Cell) : Prop where
  closed : Closed prompt
  row : d.row < d.lines.length
  height : d.lines.length ≤ 0x7FFF
  width : d.width ≤ 0x7FFF

/-- The display with the prompt and the line that is edited. -/
def Display.withLine (d : Display) (prompt : List Cell) (line : CookedLine) : Display :=
  d.echoed prompt (padded (d.width - prompt.length) line.buf) line.cursor

/-- The cursor is known to be `k` columns behind the prompt, and the line to have `n`. -/
def Display.known (d : Display) (prompt : List Cell) (k n : Nat) : TerminalCursorState :=
  ⟨⟨prompt.length + k, d.row⟩, true, prompt.length, prompt.length + n⟩

section Known

variable {d : Display} {prompt : List Cell} {k n : Nat}

theorem extendBounds_known (h : prompt.length + n < 0x7FFF) : (d.known prompt k n).extendBounds = d.known prompt k (n + 1) := by
  unfold TerminalCursorState.extendBounds Display.known
  dsimp only
  rw [i16_of_range (by omega) (by omega), Nat.cast_succ, Int.add_assoc]

theorem retractBounds_known (h : prompt.length + n ≤ 0x7FFF) (hn : 0 < n) :
    (d.known prompt k n).retractBounds = d.known prompt k (n - 1) := by
  unfold TerminalCursorState.retractBounds Display.known
  dsimp only
  rw [if_pos (by omega), i16_of_range (by omega) (by omega), Int.natCast_sub hn, Nat.cast_one, Int.add_sub_assoc]

theorem advance_known (h : prompt.length + k < 0x7FFF) (hk : k < n) : (d.known prompt k n).advance = d.known prompt (k + 1) n := by
  unfold TerminalCursorState.advance Display.known
  dsimp only
  rw [Bool.not_true, if_neg Bool.false_ne_true, i16_of_range (by omega) (by omega), if_neg (by omega), Nat.cast_succ, Int.add_assoc]

theorem retreat_known (h : prompt.length + k ≤ 0x7FFF) (hk : 0 < k) : (d.known prompt k n).retreat = d.known prompt (k - 1) n := by
  unfold TerminalCursorState.retreat Display.known
  dsimp only
  rw [Bool.not_true, if_neg Bool.false_ne_true, if_pos (by omega), i16_of_range (by omega) (by omega), Int.natCast_sub hk, Nat.cast_one,
    Int.add_sub_assoc]

theorem setCursorX_known {col : Int} (k' : Nat) (hcol : col = prompt.length + k') :
    (d.known prompt k n).setCursorX col = d.known prompt k' n := by
  unfold TerminalCursorState.setCursorX Display.known
  dsimp only
  rw [if_pos rfl, hcol]

end Known

namespace EchoRun

/-- The display has the prompt and the line, with its cursor where the one of the line is, and the console knows it. -/
structure Echoing (d : Display) (prompt : List Cell) (r : EchoRun) : Prop where
  cursor : r.line.cursor ≤ r.line.buf.length
  display : r.display = d.withLine prompt r.line
  terminal : r.terminal = d.known prompt r.line.cursor r.line.buf.length

/-- The line leaves the last column free, and each of its characters takes one. -/
structure Fits (cw : Char32 → Int) (n : Nat) (text : List Char32) : Prop where
  length : text.length < n
  plain : ∀ ch ∈ text, IsPlain cw ch

variable {cw : Char32 → Int} {d : Display} {prompt : List Cell} {r : EchoRun} {xs : List Char32} {ch : Char32}

theorem echoing_mk {line : CookedLine} {terminal : TerminalCursorState} {display : Display} (hcursor : line.cursor ≤ line.buf.length)
    (hdisplay : display = d.withLine prompt line) (hterminal : terminal = d.known prompt line.cursor line.buf.length) :
    Echoing d prompt ⟨line, terminal, display⟩ := ⟨hcursor, hdisplay, hterminal⟩

variable (cw) in
/-- Characters at the cursor, over what is behind it. -/
theorem receive_over (hd : d.Prompts prompt) {text : List Char32} {k : Nat} (hk : k ≤ text.length)
    (hxs : ∀ ch ∈ xs, IsPlain cw ch) (hlength : text.length < d.width - prompt.length)
    (hroom : k + xs.length < d.width - prompt.length) :
    (d.echoed prompt (padded (d.width - prompt.length) text) k).receive cw xs =
      d.echoed prompt (padded (d.width - prompt.length) (text.take k ++ xs ++ text.drop (k + xs.length))) (k + xs.length) := by
  have hpadded := length_padded (Nat.le_of_lt hlength)
  rw [(Display.receive_typed cw hd.closed hxs (by omega) (by omega)).2, padded_write xs hk]
  simp only [List.length_append, List.length_take, List.length_drop]
  omega

variable (cw ch) in
/-- A character is inserted: it is printed, and what is behind it once more. -/
theorem receive_insert (hd : d.Prompts prompt) {text : List Char32} {k : Nat} (hk : k ≤ text.length)
    (hfits : Fits cw (d.width - prompt.length) (text.take k ++ ch :: text.drop k)) :
    ((d.echoed prompt (padded (d.width - prompt.length) text) k).receive cw [ch]).receive cw (text.drop k) =
      d.echoed prompt (padded (d.width - prompt.length) (text.take k ++ ch :: text.drop k)) (text.length + 1) := by
  have hplain : ∀ c ∈ ch :: text.drop k, IsPlain cw c := fun c hc => hfits.plain c (List.mem_append_right _ hc)
  have hlength := hfits.length
  simp only [List.length_append, List.length_take, List.length_cons, List.length_drop] at hlength
  have hone := (Display.receive_text (s := [ch]) cw (by simpa using (hplain ch List.mem_cons_self).1) d).1
  rw [← Display.receive_append hone, List.singleton_append, receive_over cw hd hk hplain (by omega) (by simp; omega)]
  have hdrop : text.drop (k + (ch :: text.drop k).length) = [] := List.drop_of_length_le (by simp; omega)
  rw [hdrop, List.append_nil, List.length_cons, List.length_drop]
  congr 1
  omega

variable (cw) in
/-- `repaint_suffix`: what is behind the cursor is printed once more. -/
theorem receive_again (hd : d.Prompts prompt) {text : List Char32} {k : Nat} (hk : k ≤ text.length)
    (hfits : Fits cw (d.width - prompt.length) text) :
    (d.echoed prompt (padded (d.width - prompt.length) text) k).receive cw (text.drop k) =
      d.echoed prompt (padded (d.width - prompt.length) text) text.length := by
  have hlength := hfits.length
  rw [receive_over cw hd hk (fun c hc => hfits.plain c (List.mem_of_mem_drop hc)) hlength (by simp; omega)]
  have hdrop : text.drop (k + (text.drop k).length) = [] := List.drop_of_length_le (by simp; omega)
  rw [hdrop, List.append_nil, List.take_append_drop, List.length_drop, Nat.add_sub_cancel' hk]

variable (cw) in
theorem receive_moved (hd : d.Prompts prompt) {u : List Char32} {k : Nat} {col : Int} (k' : Nat) (hcol : col = prompt.length + k')
    (hk : k' < d.width - prompt.length) : (d.echoed prompt u k).receive cw (vtWriteCup d.row col) = d.echoed prompt u k' :=
  (Display.receive_column cw hd.row hd.height k' hcol (by omega) hd.width).2

/-! ## Keys -/

section Insert

variable {line : CookedLine}

variable (ch) in
theorem length_editInsert (h : line.cursor ≤ line.buf.length) : (line.editInsert ch).buf.length = line.buf.length + 1 := by
  change (line.buf.take line.cursor ++ ch :: line.buf.drop line.cursor).length = _
  simp
  omega

/-- At the end of the line, the character alone is printed. -/
theorem receive_appended (hd : d.Prompts prompt) (hcursor : line.cursor ≤ line.buf.length)
    (hfits : Fits cw (d.width - prompt.length) (line.editInsert ch).buf)
    (hend : (line.editInsert ch).cursor ≥ (line.editInsert ch).buf.length) :
    (d.withLine prompt line).receive cw [ch] = d.withLine prompt (line.editInsert ch) := by
  have hlength := length_editInsert ch hcursor
  have hnext : (line.editInsert ch).cursor = line.cursor + 1 := rfl
  have hinsert : ((d.withLine prompt line).receive cw [ch]).receive cw (line.buf.drop line.cursor) =
      d.echoed prompt (padded (d.width - prompt.length) (line.editInsert ch).buf) (line.buf.length + 1) :=
    receive_insert cw ch hd hcursor hfits
  have hlast : line.cursor = line.buf.length := by omega
  rw [List.drop_of_length_le (by omega), Display.receive_nil, ← hlast] at hinsert
  exact hinsert

/-- Inside of the line, what is behind it is printed once more, and the cursor goes back. -/
theorem receive_inserted (hd : d.Prompts prompt) (hcursor : line.cursor ≤ line.buf.length)
    (hfits : Fits cw (d.width - prompt.length) (line.editInsert ch).buf) :
    (((d.withLine prompt line).receive cw [ch]).receive cw
      (((line.editInsert ch).buf.drop (line.editInsert ch).cursor).flatMap vtWriteCell)).receive cw
        (vtWriteCup d.row (prompt.length + (line.editInsert ch).cursor)) = d.withLine prompt (line.editInsert ch) := by
  have hlength := length_editInsert ch hcursor
  have hroom := hfits.length
  have hnext : (line.editInsert ch).cursor = line.cursor + 1 := rfl
  have hrest : (line.editInsert ch).buf.drop (line.editInsert ch).cursor = line.buf.drop line.cursor := by
    change (line.buf.take line.cursor ++ ch :: line.buf.drop line.cursor).drop (line.cursor + 1) = _
    rw [List.append_cons, List.drop_left' (by simp; omega)]
  have hplain : ∀ c ∈ line.buf.drop line.cursor, IsPlain cw c := fun c hc => hfits.plain c (by
    change c ∈ line.buf.take line.cursor ++ ch :: line.buf.drop line.cursor
    simp [hc])
  rw [hrest, flatMap_vtWriteCell hplain, Display.withLine, receive_insert cw ch hd hcursor hfits,
    receive_moved cw hd (line.editInsert ch).cursor rfl (by omega)]
  rfl

end Insert

/-- An insertion, echoed as a byte or as a codepoint. -/
theorem Echoing.insert (h : r.Echoing d prompt) (hd : d.Prompts prompt)
    (hfits : Fits cw (d.width - prompt.length) (r.line.editInsert ch).buf) :
    (r.editInsertChar cw ch ch).Echoing d prompt ∧ (r.editInsertCodepoint cw ch).Echoing d prompt := by
  obtain ⟨line, terminal, display⟩ := r
  obtain ⟨hcursor, hdisplay, hterminal⟩ := h
  dsimp only at hcursor hdisplay hterminal hfits
  subst hdisplay hterminal
  have hlength := length_editInsert ch hcursor
  have hnext : (line.editInsert ch).cursor = line.cursor + 1 := rfl
  have hroom := hfits.length
  have hwidth := hd.width
  have hch : IsPlain cw ch := hfits.plain ch (by simp [CookedLine.editInsert, CookedLine.append])
  have hcell : vtWriteCell ch = [ch] := by simpa using @flatMap_vtWriteCell cw [ch] (by simpa using hch)
  have hadvance : (d.known prompt line.cursor (line.buf.length + 1)).advance =
      d.known prompt (line.editInsert ch).cursor (line.editInsert ch).buf.length := by
    rw [advance_known (by omega) (by omega), hnext, hlength]
  have hcolumn : i16 ((d.known prompt line.cursor (line.buf.length + 1)).cursor.x + 1) = prompt.length + (line.editInsert ch).cursor := by
    change i16 (prompt.length + line.cursor + 1) = _
    rw [i16_of_range (by omega) (by omega), hnext]
    push_cast
    omega
  have hknown : (d.known prompt line.cursor (line.buf.length + 1)).cursorValid = true := rfl
  have hrow : (d.known prompt line.cursor (line.buf.length + 1)).cursor.y = d.row := rfl
  have hstep (q : EchoRun) (hq : q.line = line.editInsert ch) :
      q.cookedAtEnd = decide ((line.editInsert ch).cursor ≥ (line.editInsert ch).buf.length) := by rw [cookedAtEnd, hq]
  by_cases hend : (line.editInsert ch).cursor ≥ (line.editInsert ch).buf.length
  · have happended := receive_appended hd hcursor hfits hend
    constructor
    · unfold EchoRun.editInsertChar
      dsimp only [send]
      rw [extendBounds_known (by omega), hknown, Bool.not_true, if_neg Bool.false_ne_true, hstep _ rfl, if_pos (decide_eq_true hend),
        hadvance]
      exact echoing_mk (by omega) happended rfl
    · unfold EchoRun.editInsertCodepoint
      dsimp only [send]
      rw [extendBounds_known (by omega), hknown, Bool.not_true, if_neg Bool.false_ne_true, hstep _ rfl, if_pos (decide_eq_true hend),
        hadvance, hcell]
      exact echoing_mk (by omega) happended rfl
  · have hinserted := receive_inserted hd hcursor hfits
    have hinside : ¬ decide ((line.editInsert ch).cursor ≥ (line.editInsert ch).buf.length) = true := by simpa using hend
    constructor
    · unfold EchoRun.editInsertChar
      dsimp only [send, repaintSuffix, cupTo]
      rw [extendBounds_known (by omega), hknown, Bool.not_true, if_neg Bool.false_ne_true, hstep _ rfl, if_neg hinside,
        hcolumn, hrow, setCursorX_known (line.editInsert ch).cursor rfl]
      exact echoing_mk (by omega) hinserted (by rw [hlength])
    · unfold EchoRun.editInsertCodepoint
      dsimp only [send, repaintSuffix, cupTo]
      rw [extendBounds_known (by omega), hknown, Bool.not_true, if_neg Bool.false_ne_true, hstep _ rfl, if_neg hinside, hadvance,
        hcolumn, hrow, setCursorX_known (line.editInsert ch).cursor rfl, hcell]
      exact echoing_mk (by omega) hinserted rfl

variable (cw) in
/-- The cursor goes to another character of the line. -/
theorem Echoing.moveTo (h : r.Echoing d prompt) (hd : d.Prompts prompt) {line : CookedLine} {col : Int} (hbuf : line.buf = r.line.buf)
    (hcol : col = prompt.length + line.cursor) (hcursor : line.cursor ≤ line.buf.length)
    (hroom : r.line.buf.length < d.width - prompt.length) : ({ r with line := line }.moveTo cw col).Echoing d prompt := by
  obtain ⟨line', terminal, display⟩ := r
  obtain ⟨-, hdisplay, hterminal⟩ := h
  dsimp only at hdisplay hterminal hbuf hroom
  subst hdisplay hterminal
  have hknown : (d.known prompt line'.cursor line'.buf.length).cursorValid = true := rfl
  unfold EchoRun.moveTo
  dsimp only [cupTo, send]
  rw [hknown, if_pos rfl, setCursorX_known line.cursor hcol]
  have hmoved := receive_moved cw hd (u := padded (d.width - prompt.length) line'.buf) (k := line'.cursor) line.cursor hcol
    (by rw [hbuf] at hcursor; omega)
  refine echoing_mk hcursor (hmoved.trans ?_) ?_
  · rw [Display.withLine, hbuf]
  · rw [hbuf]

/-- Another line with the same characters. -/
theorem Echoing.same (h : r.Echoing d prompt) {line : CookedLine} (hbuf : line.buf = r.line.buf)
    (hcursor : line.cursor = r.line.cursor) : ({ r with line := line } : EchoRun).Echoing d prompt :=
  ⟨by dsimp only; rw [hbuf, hcursor]; exact h.cursor, by rw [h.display, Display.withLine, Display.withLine, hbuf, hcursor],
    by dsimp only; rw [h.terminal, hbuf, hcursor]⟩

variable (cw) in
/-- The character at an index is taken out. -/
theorem receive_deleted (hd : d.Prompts prompt) {text : List Char32} {k : Nat} (hk : k < text.length)
    (hlength : text.length < d.width - prompt.length) :
    (d.echoed prompt (padded (d.width - prompt.length) text) k).receive cw (chars ['\x1b', '[', 'P']) =
      d.echoed prompt (padded (d.width - prompt.length) (text.eraseIdx k)) k := by
  have hpadded := length_padded (Nat.le_of_lt hlength)
  rw [(Display.receive_delete cw hd.closed (by omega)).2, padded_eraseIdx hk (Nat.le_of_lt hlength)]

theorem Echoing.backspace (h : r.Echoing d prompt) (hd : d.Prompts prompt)
    (hfits : Fits cw (d.width - prompt.length) r.line.buf) : (r.editBackspace cw).Echoing d prompt := by
  by_cases hzero : r.line.cursor = 0
  · rw [EchoRun.editBackspace, if_pos hzero, CookedLine.editBackspace, if_pos hzero]
    exact h.same rfl rfl
  · obtain ⟨line, terminal, display⟩ := r
    obtain ⟨hcursor, hdisplay, hterminal⟩ := h
    dsimp only at hcursor hdisplay hterminal hfits hzero
    subst hdisplay hterminal
    have hroom := hfits.length
    have hwidth := hd.width
    have hline : line.editBackspace = { line with
        buf := line.buf.eraseIdx (line.cursor - 1)
        cursor := line.cursor - 1
        history := line.history.breakBrowse } := by rw [CookedLine.editBackspace, if_neg hzero]
    have hlength : (line.buf.eraseIdx (line.cursor - 1)).length = line.buf.length - 1 := List.length_eraseIdx_of_lt (by omega)
    have hfits' : Fits cw (d.width - prompt.length) (line.buf.eraseIdx (line.cursor - 1)) :=
      ⟨by omega, fun c hc => hfits.plain c (List.mem_of_mem_eraseIdx hc)⟩
    have hdeleted : (d.withLine prompt line).receive cw (chars ['\x1b', '[', 'D'] ++ chars ['\x1b', '[', 'P']) =
        d.withLine prompt line.editBackspace := by
      obtain ⟨hcomplete, hback⟩ := Display.receive_back cw d prompt
        (u := padded (d.width - prompt.length) line.buf) (Nat.pos_of_ne_zero hzero)
      rw [Display.receive_append hcomplete, Display.withLine, hback, receive_deleted cw hd (by omega) hroom, hline, Display.withLine]
    have hknown : (d.known prompt line.cursor (line.buf.length - 1)).cursorValid = true := rfl
    have hretreat : (d.known prompt line.cursor (line.buf.length - 1)).retreat =
        d.known prompt line.editBackspace.cursor line.editBackspace.buf.length := by
      rw [retreat_known (by omega) (Nat.pos_of_ne_zero hzero), hline]
      dsimp only
      rw [hlength]
    have hagain : ((d.withLine prompt line.editBackspace).receive cw
        ((line.editBackspace.buf.drop line.editBackspace.cursor).flatMap vtWriteCell)).receive cw
          (vtWriteCup d.row (prompt.length + line.editBackspace.cursor)) = d.withLine prompt line.editBackspace := by
      rw [hline]
      dsimp only [Display.withLine]
      rw [flatMap_vtWriteCell fun c hc => hfits'.plain c (List.mem_of_mem_drop hc), receive_again cw hd (by omega) hfits',
        receive_moved cw hd (line.cursor - 1) rfl (by omega)]
    have hend : line.editBackspace.cursor ≤ line.editBackspace.buf.length := by rw [hline]; dsimp only; omega
    unfold EchoRun.editBackspace
    dsimp only [send, repaintSuffix, cupTo]
    rw [if_neg hzero, retractBounds_known (by omega) (by omega), hknown, Bool.not_true, if_neg Bool.false_ne_true, hretreat, hdeleted]
    split
    · exact echoing_mk hend hagain rfl
    · exact echoing_mk hend rfl rfl

theorem Echoing.delete (h : r.Echoing d prompt) (hd : d.Prompts prompt)
    (hfits : Fits cw (d.width - prompt.length) r.line.buf) : (r.editDelete cw).Echoing d prompt := by
  by_cases hend : r.line.cursor ≥ r.line.buf.length
  · rw [EchoRun.editDelete, if_pos hend, CookedLine.editDelete, if_pos hend]
    exact h.same rfl rfl
  · have hroom := hfits.length
    have hwidth := hd.width
    have hlength : (r.line.buf.eraseIdx r.line.cursor).length = r.line.buf.length - 1 := List.length_eraseIdx_of_lt (by omega)
    rw [EchoRun.editDelete, if_neg hend, CookedLine.editDelete, if_neg hend]
    refine ⟨?_, ?_, ?_⟩
    · dsimp only [send]
      omega
    · dsimp only [send]
      rw [h.display, Display.withLine, receive_deleted cw hd (by omega) hroom, Display.withLine]
    · dsimp only [send]
      rw [h.terminal, retractBounds_known (by omega) (by omega), hlength]

variable (cw) in
theorem Echoing.move (h : r.Echoing d prompt) (hd : d.Prompts prompt) (hroom : r.line.buf.length < d.width - prompt.length) :
    (r.editMoveLeft cw).Echoing d prompt ∧ (r.editMoveRight cw).Echoing d prompt ∧ (r.editHome cw).Echoing d prompt ∧
      (r.editEnd cw).Echoing d prompt := by
  have hwidth := hd.width
  have hcursor := h.cursor
  have hstart : r.terminal.inputColumnStart = prompt.length := congrArg TerminalCursorState.inputColumnStart h.terminal
  have hstop : r.terminal.inputColumnEnd = prompt.length + r.line.buf.length := congrArg TerminalCursorState.inputColumnEnd h.terminal
  have hcolumn (k : Nat) (hk : k ≤ r.line.buf.length) : r.terminal.columnForOffset k = prompt.length + k := by
    rw [TerminalCursorState.columnForOffset, hstart, i16_of_range (by omega) (by omega)]
  refine ⟨?_, ?_, ?_, ?_⟩
  · unfold EchoRun.editMoveLeft
    split
    · rename_i hpos
      have hline : r.line.editMoveLeft = { r.line with cursor := r.line.cursor - 1 } := if_pos hpos
      rw [hline]
      exact h.moveTo cw hd rfl (hcolumn _ (by dsimp only; omega)) (by dsimp only; omega) hroom
    · exact h
  · unfold EchoRun.editMoveRight
    split
    · rename_i hinside
      have hline : r.line.editMoveRight = { r.line with cursor := r.line.cursor + 1 } := if_pos hinside
      rw [hline]
      exact h.moveTo cw hd rfl (hcolumn _ (by dsimp only; omega)) (by dsimp only; omega) hroom
    · exact h
  · exact h.moveTo cw hd rfl (hstart.trans (Int.add_zero _).symm) (Nat.zero_le _) hroom
  · exact h.moveTo cw hd rfl hstop (Nat.le_refl _) hroom

variable (cw) in
/-- A line is written in the place of another one. -/
theorem receive_replaced (hd : d.Prompts prompt) {line line' : CookedLine} (hroom : line'.buf.length < d.width - prompt.length)
    (hcursor : line.cursor = line.buf.length) (hfits : Fits cw (d.width - prompt.length) line.buf) :
    ((d.withLine prompt line').receive cw (vtWriteCup d.row prompt.length)).receive cw
      (chars ['\x1b', '[', 'K'] ++ line.buf.flatMap vtWriteCell) = d.withLine prompt line := by
  have hlength := hfits.length
  have hpos : ([] : List Char32).length < d.width - prompt.length := Nat.zero_lt_of_lt hlength
  have hpadded := length_padded (Nat.le_of_lt hroom)
  obtain ⟨hcomplete, herase⟩ := Display.receive_eraseRest cw (d := d) hd.closed
    (u := padded (d.width - prompt.length) line'.buf) (by omega)
  have hempty : List.replicate (padded (d.width - prompt.length) line'.buf).length 0x20 =
      padded (d.width - prompt.length) [] := by rw [hpadded]; rfl
  have hover := receive_over cw hd (Nat.zero_le 0) hfits.plain hpos (by omega)
  rw [List.take_nil, List.nil_append, List.drop_nil, List.append_nil, Nat.zero_add] at hover
  rw [Display.receive_append hcomplete, Display.withLine, receive_moved cw hd 0 (Int.add_zero _).symm (by omega), herase, hempty,
    flatMap_vtWriteCell hfits.plain, hover, Display.withLine, hcursor]

/-- A line that is loaded out of the history takes the place of the one before it. -/
theorem Echoing.load (h : r.Echoing d prompt) (hd : d.Prompts prompt) (hroom : r.line.buf.length < d.width - prompt.length)
    {line : CookedLine} (hcursor : line.cursor = line.buf.length) (hfits : Fits cw (d.width - prompt.length) line.buf) :
    ({ r with line := line }.loadHistoryLine cw).Echoing d prompt := by
  have hwidth := hd.width
  have hlength := hfits.length
  have hbounds : r.terminal.setBoundsEndForLength line.buf.length = d.known prompt r.line.cursor line.buf.length := by
    rw [h.terminal]
    unfold TerminalCursorState.setBoundsEndForLength Display.known
    dsimp only
    rw [i16_of_range (by omega) (by omega)]
  have hset : (d.known prompt r.line.cursor line.buf.length).setCursorX (prompt.length + line.buf.length) =
      d.known prompt line.buf.length line.buf.length := setCursorX_known line.buf.length rfl
  have hreplaced := receive_replaced cw hd hroom hcursor hfits
  have hloaded : { r with line := line }.loadHistoryLine cw =
      ⟨line, d.known prompt line.buf.length line.buf.length, d.withLine prompt line⟩ := by
    unfold EchoRun.loadHistoryLine EchoRun.repaintFullLine
    dsimp only [cupTo, send]
    rw [hbounds, h.display]
    dsimp only [Display.known] at hset ⊢
    refine (if_neg (by decide : ¬ (!true) = true)).trans ?_
    rw [hset, hreplaced]
  rw [hloaded]
  exact echoing_mk (Nat.le_of_eq hcursor) rfl (by rw [hcursor])

theorem Echoing.history (h : r.Echoing d prompt) (hd : d.Prompts prompt) (hroom : r.line.buf.length < d.width - prompt.length) :
    (Fits cw (d.width - prompt.length) r.line.historyUp.buf → (r.historyUp cw).Echoing d prompt) ∧
      (Fits cw (d.width - prompt.length) r.line.historyDown.buf → (r.historyDown cw).Echoing d prompt) := by
  constructor
  · intro hfits
    unfold EchoRun.historyUp
    cases hup : r.line.history.browseUp r.line.buf with
    | none => exact h
    | some p =>
      refine h.load hd hroom ?_ hfits
      rw [CookedLine.historyUp, hup]
  · intro hfits
    unfold EchoRun.historyDown
    cases hdown : r.line.history.browseDown with
    | none => exact h
    | some p =>
      refine h.load hd hroom ?_ hfits
      rw [CookedLine.historyDown, hdown]

/-! ## Every sequence of keys -/

/-- What a user sees of a line that is edited, and what the console knows of it. -/
structure Echoes (d : Display) (prompt : List Cell) (r : EchoRun) (l : LineEditor) : Prop where
  line : r.line.Is l
  display : r.display = d.echoed prompt (padded (d.width - prompt.length) l.text) l.line.left.length
  terminal : r.terminal = d.known prompt l.line.left.length l.text.length

theorem echoes_iff {l : LineEditor} : r.Echoes d prompt l ↔ r.Echoing d prompt ∧ r.line.Is l := by
  constructor
  · rintro ⟨hline, hdisplay, hterminal⟩
    have hbuf : r.line.buf = l.text := hline.line.list
    exact ⟨⟨hline.line.le, by rw [hdisplay, Display.withLine, hbuf, hline.line.index],
      by rw [hterminal, hbuf, hline.line.index]⟩, hline⟩
  · rintro ⟨⟨-, hdisplay, hterminal⟩, hline⟩
    have hbuf : r.line.buf = l.text := hline.line.list
    exact ⟨hline, by rw [hdisplay, Display.withLine, hbuf, hline.line.index], by rw [hterminal, hbuf, hline.line.index]⟩

variable (cw r) in
theorem line_moveTo (col : Int) : (r.moveTo cw col).line = r.line := by
  unfold EchoRun.moveTo
  split <;> rfl

theorem line_loadHistoryLine : (r.loadHistoryLine cw).line = r.line := by
  unfold EchoRun.loadHistoryLine repaintFullLine
  dsimp only
  split <;> rfl

variable (cw r) in
/-- A key does to the line what it means to the editor. -/
theorem line_press {l : LineEditor} (h : r.line.Is l) (k : EchoKey) : (r.press cw k).line.Is (l.press k.edit) := by
  have hinsert (ch : Char32) : (r.editInsertChar cw ch ch).line = r.line.editInsert ch ∧
      (r.editInsertCodepoint cw ch).line = r.line.editInsert ch := by
    unfold EchoRun.editInsertChar EchoRun.editInsertCodepoint
    dsimp only
    split_ifs <;> exact ⟨rfl, rfl⟩
  cases k with
  | ascii ch hch => exact (hinsert ch).1 ▸ h.editInsert ch
  | key k =>
    cases k with
    | insert ch => exact (hinsert ch).2 ▸ h.editInsert ch
    | backspace =>
      have hline : (r.editBackspace cw).line = r.line.editBackspace := by
        unfold EchoRun.editBackspace
        dsimp only
        split_ifs <;> rfl
      exact hline ▸ h.editBackspace
    | delete =>
      have hline : (r.editDelete cw).line = r.line.editDelete := by
        unfold EchoRun.editDelete
        split <;> rfl
      exact hline ▸ h.editDelete
    | left =>
      have hline : (r.editMoveLeft cw).line = r.line.editMoveLeft := by
        unfold EchoRun.editMoveLeft
        split
        · exact line_moveTo cw _ _
        · rename_i hc
          exact (if_neg hc).symm
      exact hline ▸ h.editMoveLeft
    | right =>
      have hline : (r.editMoveRight cw).line = r.line.editMoveRight := by
        unfold EchoRun.editMoveRight
        split
        · exact line_moveTo cw _ _
        · rename_i hc
          exact (if_neg hc).symm
      exact hline ▸ h.editMoveRight
    | home => exact (line_moveTo cw { r with line := r.line.editHome } _).symm ▸ h.editHome
    | end_ => exact (line_moveTo cw { r with line := r.line.editEnd } _).symm ▸ h.editEnd
    | historyUp =>
      have hline : (r.historyUp cw).line = r.line.historyUp := by
        unfold EchoRun.historyUp CookedLine.historyUp
        cases hup : r.line.history.browseUp r.line.buf with
        | none => rfl
        | some p => exact line_loadHistoryLine
      exact hline ▸ h.historyUp
    | historyDown =>
      have hline : (r.historyDown cw).line = r.line.historyDown := by
        unfold EchoRun.historyDown CookedLine.historyDown
        cases hdown : r.line.history.browseDown with
        | none => rfl
        | some p => exact line_loadHistoryLine
      exact hline ▸ h.historyDown

/-- A key does to the display what it does to the line. -/
theorem Echoes.press {l : LineEditor} (h : r.Echoes d prompt l) (hd : d.Prompts prompt) (k : EchoKey)
    (hbefore : Fits cw (d.width - prompt.length) l.text) (hafter : Fits cw (d.width - prompt.length) (l.press k.edit).text) :
    (r.press cw k).Echoes d prompt (l.press k.edit) := by
  obtain ⟨hechoing, hline⟩ := echoes_iff.mp h
  have hpressed := line_press cw r hline k
  refine echoes_iff.mpr ⟨?_, hpressed⟩
  have hbuf : r.line.buf = l.text := hline.line.list
  rw [← hbuf] at hbefore
  cases k with
  | ascii ch hch =>
    have hbuf' : (r.line.editInsert ch).buf = (l.press (.insert ch)).text := (hline.editInsert ch).line.list
    exact (hechoing.insert hd (hbuf' ▸ hafter)).1
  | key k =>
    cases k with
    | insert ch =>
      have hbuf' : (r.line.editInsert ch).buf = (l.press (.insert ch)).text := (hline.editInsert ch).line.list
      exact (hechoing.insert hd (hbuf' ▸ hafter)).2
    | backspace => exact hechoing.backspace hd hbefore
    | delete => exact hechoing.delete hd hbefore
    | left => exact (hechoing.move cw hd hbefore.length).1
    | right => exact (hechoing.move cw hd hbefore.length).2.1
    | home => exact (hechoing.move cw hd hbefore.length).2.2.1
    | end_ => exact (hechoing.move cw hd hbefore.length).2.2.2
    | historyUp =>
      have hbuf' : r.line.historyUp.buf = (l.press .historyUp).text := hline.historyUp.line.list
      exact (hechoing.history hd hbefore.length).1 (hbuf' ▸ hafter)
    | historyDown =>
      have hbuf' : r.line.historyDown.buf = (l.press .historyDown).text := hline.historyDown.line.list
      exact (hechoing.history hd hbefore.length).2 (hbuf' ▸ hafter)

end EchoRun

/-- The cursor is behind a prompt, and behind it the line is empty. -/
structure Display.AtPrompt (d : Display) (prompt : List Cell) : Prop extends d.Prompts prompt where
  blank : d.lines[d.row]? = some (prompt ++ List.replicate (d.width - prompt.length) (plainCell d.pen 0x20))
  col : d.col = prompt.length
  wrap : d.wrap = false

theorem EchoRun.echoes_start {d : Display} {prompt : List Cell} (hd : d.AtPrompt prompt) (history : CommandHistory) :
    (EchoRun.start history d).Echoes d prompt { history := history } := by
  refine ⟨⟨⟨rfl, rfl⟩, rfl⟩, ?_, ?_⟩
  · have hline : d.lines.set d.row (prompt ++ (padded (d.width - prompt.length) []).map (plainCell d.pen)) = d.lines := by
      refine List.ext_getElem? fun i => ?_
      rw [List.getElem?_set]
      split_ifs with hi hlength
      · rw [← hi, hd.blank, padded, List.nil_append, List.map_replicate]
        rfl
      · exact absurd hd.row hlength
      · rfl
    have hechoed : d.echoed prompt (padded (d.width - prompt.length) []) 0 = d := by
      rw [Display.echoed, hline, Nat.add_zero, ← hd.col, ← hd.wrap]
    exact hechoed.symm
  · unfold EchoRun.start Display.known TerminalCursorState.resetBounds
    dsimp only
    rw [hd.col]
    rfl

/-- While a line is edited behind a prompt, the display has after each key the line
as it would be read, with the cursor where the next key takes effect. -/
theorem line_echoed {cw : Char32 → Int} {d : Display} {prompt : List Cell} (hd : d.AtPrompt prompt) (history : CommandHistory)
    (keys : List EchoKey)
    (hfits : ∀ ks, ks <+: keys → EchoRun.Fits cw (d.width - prompt.length)
      ((ks.map EchoKey.edit).foldl LineEditor.press { history := history }).text) :
    (keys.foldl (EchoRun.press cw) (.start history d)).Echoes d prompt
      ((keys.map EchoKey.edit).foldl LineEditor.press { history := history }) := by
  induction keys using List.reverseRecOn with
  | nil => exact EchoRun.echoes_start hd history
  | append_singleton keys k ih =>
    have hbefore := hfits keys (List.prefix_append _ _)
    have hafter := hfits _ (List.prefix_refl _)
    rw [List.map_append, List.foldl_append] at hafter
    rw [List.foldl_append, List.map_append, List.foldl_append]
    exact (ih fun ks hks => hfits ks (hks.trans (List.prefix_append _ _))).press hd.toPrompts k hbefore hafter

/-- A character is typed between two others behind a prompt of one column. -/
theorem line_echoed_between :
    let d : Display := { lines := [⟨[0x3E], 1, ⟨7⟩⟩ :: List.replicate 4 (plainCell 7 0x20)], width := 5, bottom := 0, col := 1 }
    ([.ascii 0x61 (by decide), .key (.insert 0x63), .key .left, .ascii 0x62 (by decide)].foldl (EchoRun.press fun _ => 1)
      (.start {} d)).Echoes d [⟨[0x3E], 1, ⟨7⟩⟩] ⟨⟨[0x62, 0x61], [0x63]⟩, {}⟩ := by
  intro d
  have hfits : ∀ ks ∈ [EchoKey.ascii 0x61 (by decide), .key (.insert 0x63), .key .left, .ascii 0x62 (by decide)].inits,
      (((ks.map EchoKey.edit).foldl LineEditor.press {}).text.length < 4 ∧
        ∀ ch ∈ ((ks.map EchoKey.edit).foldl LineEditor.press {}).text, isC0OrDel ch = false ∧ widthColumns (fun _ => 1) ch = 1) := by
    decide
  refine line_echoed (d := d) ⟨⟨?_, by decide, by decide, by decide⟩, rfl, rfl, rfl⟩ {} _ fun ks hks => ?_
  · intro c hc
    obtain rfl := Option.some_inj.mp hc
    decide
  · obtain ⟨hlength, hplain⟩ := hfits ks ((List.mem_inits _ _).mpr hks)
    exact ⟨hlength, hplain⟩

end Corehost
