import Corehost.Row.Copy
import Corehost.Screen.PartialScroll

/-!
# A terminal that prints

`TerminalScreen` executes the messages of a scroll. A `Display` also has text, the
erases and what a line editor needs: a character takes the columns that the terminal measures for it, a
glyph that it covers by half becomes a space, and behind the last column the next
character goes to the next line.

* `receive_append`: what the display receives in pieces, each of them complete;
* `receive_text`, `receive_sends`: a piece of text, and a piece with one message;
* `sends_cup`, `receive_attr`: the cursor goes where it is sent, and of an
  attribute word only the colors arrive.
-/

namespace Corehost

open Lib Lib.Transducer
open ScreenBufferRow (Cell runCells overwriteCells)

/-- `wrap` is set behind a character in the last column. -/
structure Display extends TerminalScreen where
  wrap : Bool := false

namespace Display

/-! ## The model -/

/-- The next line, or the last one after the lines between the margins have moved up. -/
def nextLine (t : Display) : Display :=
  if t.row = t.bottom then
    { t with
      lines := Lib.deleteLines t.lines t.top t.bottom 1 t.blankLine
      col := 0
      wrap := false }
  else
    { t with
      row := min (t.row + 1) (t.lines.length - 1)
      col := 0
      wrap := false }

/-- Cells in the line of the cursor. -/
def put (t : Display) (cells : List Cell) : Display :=
  { t with lines := t.lines.modify t.row fun line => overwriteCells line t.col cells }

/-- A character, in the columns that it takes. -/
def print (cw : Char32 → Int) (t : Display) (ch : Char32) : Display :=
  let columns := (widthColumns cw ch).toNat
  let t := if t.wrap ∨ t.width < t.col + columns then t.nextLine else t
  { t.put (runCells ⟨t.pen⟩ [(ch, columns)]) with
    col := min (t.col + columns) (t.width - 1)
    wrap := t.width ≤ t.col + columns }

/-- Blanks in the pen, `n` columns at most. -/
def blanks (t : Display) (n : Nat) : List Cell := List.replicate (min n (t.width - t.col)) ⟨[0x20], 1, ⟨t.pen⟩⟩

/-- Cells are taken out of a line: the ones behind them move up, and blanks come in at the end. -/
def deleteCells (line : List Cell) (col n : Nat) (b : Cell) : List Cell :=
  let n := min n (line.length - col)
  -- a glyph that loses a half becomes a space
  let line := overwriteCells line col (List.replicate n b)
  line.take col ++ line.drop (col + n) ++ List.replicate n b

/-- What the display does with a message. -/
def execute (cw : Char32 → Int) (t : Display) : VtMessageId × VtPayload → Display
  | (.continueText, payload) => payload.textValue.foldl (print cw) t
  | (.text, payload) => payload.textValue.foldl (print cw) t
  | (.eraseInDisplay, .eraseMode 2) => { t with lines := List.replicate t.lines.length t.blankLine, wrap := false }
  | (.eraseInLine, .eraseMode 0) => { t.put (t.blanks t.width) with wrap := false }
  | (.eraseCharacters, .count n) => { t.put (t.blanks n.toNat) with wrap := false }
  | (.deleteCharacters, .count n) =>
    { t with
      lines := t.lines.modify t.row fun line => deleteCells line t.col n.toNat ⟨[0x20], 1, ⟨t.pen⟩⟩
      wrap := false }
  | (.cursorBackward, .count n) => { t with col := t.col - n.toNat, wrap := false }
  | (.sgr, payload) => { t with toTerminalScreen := t.toTerminalScreen.execute (.sgr, payload) }
  | m => { toTerminalScreen := t.toTerminalScreen.execute m }

/-- The display after it has received the characters. -/
def receive (cw : Char32 → Int) (t : Display) (s : List Char32) : Display := (received s).foldl (execute cw) t

/-! ## Pieces -/

variable {cw : Char32 → Int} {t : Display} {s s' : List Char32}

theorem foldl_split (e : Emitted) (t : Display) :
    e.split.foldl (fun t e => execute cw t e.seen) t = execute cw t e.seen := by
  cases htext : e.text? with
  | none =>
    rw [Emitted.split, htext]
    rfl
  | some text =>
    have hid := Emitted.id_of_text? htext
    have hpayload : e.message.payload = .text text := by
      unfold Emitted.text? at htext
      split at htext
      · rename_i h
        rw [h, Option.some_inj.mp htext]
      · simp at htext
    have hcarries : VtMessageId.continueText.carries = true := by decide
    have hchar : (fun (t : Display) ch => execute cw t (e.withText [ch]).seen) = print cw := by
      funext t ch
      rw [Emitted.seen, Emitted.withText, hid, hcarries]
      rfl
    rw [Emitted.split_of_text htext, List.foldl_map, hchar, Emitted.seen, hid, hcarries, hpayload]
    rfl

/-- The display executes the messages of the characters one by one. -/
theorem receive_eq (t : Display) (s : List Char32) :
    t.receive cw s = (run VtParser.charStep {} s).1.foldl (fun t e => execute cw t e.seen) t := by
  have hout := VtParser.feed_agrees.output {} s VtParser.steady_new
  rw [receive, received, List.foldl_map, ← hout]
  generalize (VtParser.feed {} s).1 = ms
  induction ms generalizing t with
  | nil => rfl
  | cons m ms ih => rw [List.flatMap_cons, List.foldl_append, foldl_split, List.foldl_cons, ih]

/-- The characters leave the parser where it was. -/
def Complete (s : List Char32) : Prop := (run VtParser.charStep {} s).2 = {}

theorem Complete.append (h : Complete s) (h' : Complete s') : Complete (s ++ s') := by
  rw [Complete, run_append]
  change (run VtParser.charStep (run VtParser.charStep {} s).2 s').2 = {}
  rw [h, h']

theorem receive_append (h : Complete s) (t : Display) (s' : List Char32) :
    t.receive cw (s ++ s') = (t.receive cw s).receive cw s' := by
  rw [receive_eq, run_append, List.foldl_append, receive_eq, receive_eq]
  rw [h]

@[simp] theorem receive_nil (t : Display) : t.receive cw [] = t := rfl

variable (cw) in
/-- A text without control characters. -/
theorem receive_text (h : ∀ ch ∈ s, isC0OrDel ch = false) (t : Display) :
    Complete s ∧ t.receive cw s = s.foldl (print cw) t := by
  have hrun := VtParser.steady_new.run_text rfl h
  refine ⟨by rw [Complete, hrun], ?_⟩
  rw [receive_eq, hrun, List.foldl_map]
  rfl

variable (cw) in
theorem receive_sends {m : VtMessageId × VtPayload} (h : PartialScroll.Sends s m) (t : Display) :
    Complete s ∧ t.receive cw s = t.execute cw m := by
  obtain ⟨e, rfl, -, hrun⟩ := h
  refine ⟨by rw [Complete, hrun], ?_⟩
  rw [receive_eq, hrun]
  rfl

theorem execute_position (t : Display) (row col : Int) : t.execute cw (.cursorPosition, .position row col) = { t with
    row := min (row - 1).toNat (t.lines.length - 1)
    col := min (col - 1).toNat (t.width - 1)
    wrap := false } := rfl

end Display

/-! ## What the console sends -/

open PartialScroll RoundTrip in
/-- The cursor, anywhere on the screen. -/
theorem sends_cup {row col : Int} (hrow : 0 ≤ row ∧ row < 0x7FFF) (hcol : 0 ≤ col ∧ col < 0x7FFF) :
    Sends (vtWriteCup row col) (.cursorPosition, .position (row + 1) (col + 1)) := by
  have hr : IsShort (row + 1) := ⟨by omega, by omega⟩
  have hc : IsShort (col + 1) := ⟨by omega, by omega⟩
  have h := @sends_numbers [row + 1, col + 1] (by simp) (by simp; omega) (by simp [hr, hc]) 'H'.toNat rfl _ _
    (dispatchCsi_pair (by omega) (by omega) hr hc) (by decide) (by decide)
  have hcarries : VtMessageId.cursorPosition.carries = true := by decide
  simpa [vtWriteCup, chars, joinParams, hcarries] using h

/-- The colors of an attribute word. -/
def colorsOf (attr : UInt16) : UInt16 := attr &&& 0xFF

theorem colorsOf_and (attr : UInt16) : colorsOf attr &&& 0xFF00 = 0 := by
  rw [colorsOf, UInt16.and_assoc]
  exact UInt16.and_zero

/-- The flags of the word are looked for in a byte that they are not in. -/
theorem vtWriteAttr_eq (attr : UInt16) : vtWriteAttr attr = chars ['\x1b', '[', '0'] ++
    (if attr &&& 0x0F ≠ 0x07 then chars [';'] ++ vtAppendInt (fgMap.getD (attr &&& 0x0F &&& 15).toNat 0) else []) ++
    (if (attr >>> 4) &&& 0x0F ≠ 0x00 then chars [';'] ++ vtAppendInt (bgMap.getD ((attr >>> 4) &&& 0x0F &&& 15).toNat 0)
     else []) ++ chars ['m'] := by
  have hflag (x flag : UInt16) (h : 0xFF &&& flag = 0) : ¬ x &&& 0xFF &&& flag ≠ 0 := by
    rw [UInt16.and_assoc, h]
    exact not_not_intro UInt16.and_zero
  unfold vtWriteAttr
  by_cases h : attr = 0x07
  · subst h
    decide
  · rw [if_neg h]
    dsimp only
    rw [if_neg (hflag _ COMMON_LVB_REVERSE_VIDEO (by decide)), if_neg (hflag _ COMMON_LVB_UNDERSCORE (by decide)),
      if_neg (hflag _ COMMON_LVB_GRID_HORIZONTAL (by decide)), List.append_nil, List.append_nil, List.append_nil]

theorem vtWriteAttr_colorsOf (attr : UInt16) : vtWriteAttr attr = vtWriteAttr (colorsOf attr) := by
  have hfg : colorsOf attr &&& 0x0F = attr &&& 0x0F := by
    rw [colorsOf, UInt16.and_assoc]
    exact congrArg _ (by decide)
  have hbg : colorsOf attr >>> 4 &&& (0x0F : UInt16) = attr >>> 4 &&& (0x0F : UInt16) := by
    rw [colorsOf, UInt16.shiftRight_and, UInt16.and_assoc]
    exact congrArg _ (by decide)
  rw [vtWriteAttr_eq, vtWriteAttr_eq (colorsOf attr), hfg, hbg]

/-- Of an attribute word, the colors arrive. -/
theorem Display.receive_attr (cw : Char32 → Int) (attr : UInt16) (t : Display) :
    Complete (vtWriteAttr attr) ∧ t.receive cw (vtWriteAttr attr) = { t with pen := colorsOf attr } := by
  obtain ⟨hsends, hpen⟩ := PartialScroll.sends_attr (colorsOf_and attr)
  rw [vtWriteAttr_colorsOf]
  obtain ⟨hcomplete, hreceive⟩ := receive_sends cw hsends t
  refine ⟨hcomplete, hreceive.trans ?_⟩
  rw [execute, TerminalScreen.execute, hpen]

end Corehost
