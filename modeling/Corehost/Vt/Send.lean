import Corehost.Parser.Csi
import Mathlib.Data.Nat.Digits.Lemmas

/-!
# Sending messages to the terminal

The model of `vt_msg_send` (`pipe_bridge.hpp`): the characters that a message
adds to the output buffer. The buffer holds their UTF-8 encoding.

* `vtMsgSend`: one case for each message that is sent;
* `shortOf_decimal`: the parser reads a number back.
-/

namespace Corehost

open Lib

def chars (cs : List Char) : List Char32 := cs.map Char.toNat

/-- The digits of `std::to_chars`. -/
def decimal (n : Nat) : List Char32 := if n = 0 then [0x30] else ((Nat.digits 10 n).reverse.map (· + 0x30))

def vtAppendInt (n : Int) : List Char32 := if n < 0 then 0x2D :: decimal n.natAbs else decimal n.natAbs

/-- `vt_append_hex_byte`, with the digits `0123456789abcdef`. -/
def vtAppendHexByte (value : Nat) : List Char32 :=
  let digit (d : Nat) := if d < 10 then d + 0x30 else d - 10 + 0x61
  [digit (value / 16), digit (value % 16)]

/-- `vt_append_sgr_param` for one value after the other: a semicolon between two of them. -/
def vtAppendSgrParams (values : List Int) : List Char32 := joinParams (values.map vtAppendInt)

def vtWriteCup (row col : Int) : List Char32 :=
  chars ['\x1b', '['] ++ vtAppendInt (row + 1) ++ chars [';'] ++ vtAppendInt (col + 1) ++ chars ['H']

def vtWriteWindowTitle (title : List Char32) : List Char32 :=
  if title.isEmpty then [] else chars ['\x1b', ']', '0', ';'] ++ title ++ [0x07]

/-! ## SGR parameters -/

namespace VtSgrPayload

/-- The flags in the order in which they are sent, with the parameter that sets each of them. -/
def flagParams : List (VtSgrFlag × Int) :=
  [(.bold, 1), (.faint, 2), (.italic, 3), (.underline, 4), (.blink, 5), (.negative, 7), (.conceal, 8), (.strikethrough, 9)]

/-- The parameter that clears each of the flags after the first two. -/
def clearParams : List (VtSgrFlag × Int) :=
  [(.italic, 23), (.underline, 24), (.blink, 25), (.negative, 27), (.conceal, 28), (.strikethrough, 29)]

/-- The parameters of a colour; `base` is 30 for the foreground, 40 for the background. -/
def colorParams (base : Int) : VtSgrColor → List Int
  | .none => []
  | .default => [base + 9]
  | .rgb r g b => [base + 8, 2, r, g, b]
  | .indexed value =>
    if value ≤ 7 then [base + value]
    else if value ≤ 15 then [base + 60 + (value - 8)]
    else [base + 8, 5, value]

/-- The parameters that `vt_msg_send` appends for a payload without a reset. -/
def sendParams (m : VtSgrPayload) : List Int :=
  0 :: (((flagParams.filter fun p => m.has p.1).map Prod.snd) ++
    (if m.clears .bold || m.clears .faint then [22] else []) ++
    ((clearParams.filter fun p => m.clears p.1).map Prod.snd) ++ colorParams 30 m.fg ++ colorParams 40 m.bg)

end VtSgrPayload

def vtSendSgr (m : VtSgrPayload) : List Char32 :=
  if m.has .reset then chars ['\x1b', '[', '0', 'm']
  else chars ['\x1b', '['] ++ vtAppendSgrParams m.sendParams ++ chars ['m']

/-! ## Messages -/

namespace VtPayload

/-- The members of the payload union that `vt_msg_send` reads. -/
def countValue : VtPayload → Int
  | .count n => n
  | _ => 1

def rowValue : VtPayload → Int
  | .row r => r
  | .position r _ => r
  | _ => 1

def colValue : VtPayload → Int
  | .col c => c
  | .position _ c => c
  | _ => 1

def textValue : VtPayload → List Char32
  | .text s => s
  | _ => []

def titleValue : VtPayload → List Char32
  | .title s => s
  | _ => []

def eraseModeValue : VtPayload → Int
  | .eraseMode mode => mode
  | _ => 0

def cursorShapeValue : VtPayload → Int
  | .cursorShape shape => shape
  | _ => 0

def scrollRegionValue : VtPayload → Int × Int
  | .scrollRegion top bottom => (top, bottom)
  | _ => (1, 0)

def paletteValue : VtPayload → Int × Nat × Nat × Nat
  | .palette index r g b => (index, r, g, b)
  | _ => (0, 0, 0, 0)

def sgrValue : VtPayload → VtSgrPayload
  | .sgr m => m
  | _ => {}

end VtPayload

/-- A relative movement: the count 1 is left out. -/
def sendElided (n : Int) (final : Char) : List Char32 :=
  if n > 1 then chars ['\x1b', '['] ++ vtAppendInt n ++ chars [final] else chars ['\x1b', '[', final]

def sendNumber (n : Int) (final : Char) : List Char32 := chars ['\x1b', '['] ++ vtAppendInt n ++ chars [final]

def vtMsgSend (id : VtMessageId) (payload : VtPayload) : List Char32 :=
  match id with
  | .text => payload.textValue
  | .setWindowTitle => vtWriteWindowTitle payload.titleValue
  | .carriageReturn => [0x0D]
  | .lineFeed => [0x0D, 0x0A]
  | .reverseIndex => chars ['\x1b', 'M']
  | .cursorUp => sendElided payload.countValue 'A'
  | .cursorDown => sendElided payload.countValue 'B'
  | .cursorForward => sendElided payload.countValue 'C'
  | .cursorBackward => sendElided payload.countValue 'D'
  | .cursorNextLine => sendElided payload.countValue 'E'
  | .cursorPrevLine => sendElided payload.countValue 'F'
  | .cursorForwardTab => sendNumber payload.countValue 'I'
  | .cursorBackwardTab => sendNumber payload.countValue 'Z'
  | .cursorVertAbsolute => sendNumber payload.rowValue 'd'
  | .cursorHorizAbsolute => sendNumber payload.colValue 'G'
  | .cursorPosition => vtWriteCup (i16 (payload.rowValue - 1)) (i16 (payload.colValue - 1))
  | .saveCursor => chars ['\x1b', '7']
  | .restoreCursor => chars ['\x1b', '8']
  | .ansiSaveCursor => chars ['\x1b', '7']
  | .ansiRestoreCursor => chars ['\x1b', '8']
  | .setCursorShape => chars ['\x1b', '['] ++ vtAppendInt payload.cursorShapeValue ++ chars [' ', 'q']
  | .cursorEnableBlinking => chars ['\x1b', '[', '?', '1', '2', 'h']
  | .cursorDisableBlinking => chars ['\x1b', '[', '?', '1', '2', 'l']
  | .cursorShow => chars ['\x1b', '[', '?', '2', '5', 'h']
  | .cursorHide => chars ['\x1b', '[', '?', '2', '5', 'l']
  | .cursorKeysAppMode => chars ['\x1b', '[', '?', '1', 'h']
  | .cursorKeysNormalMode => chars ['\x1b', '[', '?', '1', 'l']
  | .horizontalTabSet => chars ['\x1b', 'H']
  | .tabClearCurrent => chars ['\x1b', '[', '0', 'g']
  | .tabClearAll => chars ['\x1b', '[', '3', 'g']
  | .keypadAppMode => chars ['\x1b', '=']
  | .keypadNumericMode => chars ['\x1b', '>']
  | .designateCharsetLineDrawing => chars ['\x1b', '(', '0']
  | .designateCharsetAscii => chars ['\x1b', '(', 'B']
  | .scrollUp => sendElided payload.countValue 'S'
  | .scrollDown => sendElided payload.countValue 'T'
  | .insertCharacters => sendNumber payload.countValue '@'
  | .deleteCharacters => sendNumber payload.countValue 'P'
  | .eraseCharacters => sendNumber payload.countValue 'X'
  | .insertLines => sendNumber payload.countValue 'L'
  | .deleteLines => sendNumber payload.countValue 'M'
  | .eraseInDisplay => sendNumber payload.eraseModeValue 'J'
  | .eraseInLine => sendNumber payload.eraseModeValue 'K'
  | .setScrollingRegion =>
    chars ['\x1b', '['] ++ vtAppendInt payload.scrollRegionValue.1 ++ chars [';'] ++
      vtAppendInt payload.scrollRegionValue.2 ++ chars ['r']
  | .useAlternateBuffer => chars ['\x1b', '[', '?', '1', '0', '4', '9', 'h']
  | .useMainBuffer => chars ['\x1b', '[', '?', '1', '0', '4', '9', 'l']
  | .setColumns132 => chars ['\x1b', '[', '?', '3', 'h']
  | .setColumns80 => chars ['\x1b', '[', '?', '3', 'l']
  | .sgr => vtSendSgr payload.sgrValue
  | .setPaletteColor =>
    let (index, r, g, b) := payload.paletteValue
    chars ['\x1b', ']', '4', ';'] ++ vtAppendInt index ++ chars [';', 'r', 'g', 'b', ':'] ++ vtAppendHexByte r ++
      chars ['/'] ++ vtAppendHexByte g ++ chars ['/'] ++ vtAppendHexByte b ++ [0x07]
  | .softReset => chars ['\x1b', '[', '!', 'p', '\x1b', '[', '?', '9', '0', '0', '1', 'h']
  | .reportCursorPosition => chars ['\x1b', '[', '6', 'n']
  | .deviceAttributes => chars ['\x1b', '[', '0', 'c']
  | _ => []

/-! ## Numbers -/

theorem decimal_isDigit (n : Nat) : ∀ ch ∈ decimal n, isDigit ch = true := by
  intro ch hc
  unfold decimal at hc
  split at hc
  · rw [List.mem_singleton.mp hc]
    rfl
  · obtain ⟨d, hd, rfl⟩ := List.mem_map.mp hc
    have hlt : d < 10 := Nat.digits_lt_base (by decide) (List.mem_reverse.mp hd)
    simp only [isDigit, Bool.and_eq_true, decide_eq_true_eq]
    constructor
    · exact Nat.le_add_left _ _
    · exact Nat.add_le_add_right (Nat.le_of_lt_succ hlt) _

/-- Digits read from the left, without the bound of a `short`. -/
def natOf (acc : Nat) (digits : List Nat) : Nat := digits.foldl (fun v d => v * 10 + d) acc

theorem le_natOf : ∀ (digits : List Nat) (acc : Nat), acc ≤ natOf acc digits
  | [], _ => le_rfl
  | d :: ds, acc => le_trans (by omega) (le_natOf ds (acc * 10 + d))

theorem natOf_reverse_digits (n : Nat) : natOf 0 (Nat.digits 10 n).reverse = n := by
  have h : ∀ ds : List Nat, natOf 0 ds.reverse = Nat.ofDigits 10 ds := by
    intro ds
    rw [natOf, List.foldl_reverse]
    induction ds with
    | nil => rfl
    | cons d ds ih =>
      rw [List.foldr_cons, ih, Nat.ofDigits_cons]
      omega
  rw [h, Nat.ofDigits_digits]

/-- A number below 2^15 does not wrap while its digits are accumulated. -/
theorem foldl_i16 : ∀ (ds : List Nat) (acc : Nat), natOf acc ds ≤ 32767 →
    (ds.map (· + 0x30)).foldl (fun v ch => i16 (v * 10 + Int.ofNat (ch - 0x30))) (acc : Int) = natOf acc ds
  | [], _, _ => rfl
  | d :: ds, acc, h => by
    have hle := le_natOf ds (acc * 10 + d)
    have hstep : natOf acc (d :: ds) = natOf (acc * 10 + d) ds := rfl
    rw [hstep] at h
    have hi : i16 ((acc : Int) * 10 + Int.ofNat (d + 0x30 - 0x30)) = ((acc * 10 + d : Nat) : Int) := by
      rw [Nat.add_sub_cancel, i16_of_range] <;> simp only [Int.ofNat_eq_natCast] <;> omega
    rw [List.map_cons, List.foldl_cons, hi, foldl_i16 ds _ h, hstep]

theorem shortOf_decimal {n : Nat} (h : n ≤ 32767) : shortOf (decimal n) = n := by
  unfold decimal shortOf
  split
  · rename_i h0
    subst h0
    rfl
  · have := foldl_i16 (Nat.digits 10 n).reverse 0 (by rw [natOf_reverse_digits]; exact h)
    rw [natOf_reverse_digits] at this
    exact this

theorem vtAppendInt_natCast (n : Nat) : vtAppendInt n = decimal n := by
  rw [vtAppendInt, if_neg (by omega), Int.natAbs_natCast]

end Corehost
