import Corehost.Input.Model
import Corehost.Lib.Search
import Corehost.Lib.Utf16
import Corehost.Lib.Utf8
import Corehost.Session.Aliases
import Corehost.Session.Transfer

/-!
# The completion of a ReadConsole

The bytes that `prepare_console_read_completion` puts behind the descriptor of
a ReadConsole: the cooked line, with its alias expanded, in UTF-16 or in the
input code page, and CR LF (`pipe_bridge.hpp`, `char_convert.hpp`).

`wideCharToMultiByte cp text` are the bytes of a text in a code page. A
converter that needs more room than it is given has no result.

* `lineReply_fits`: the text part is the longest prefix that fits, and CR and
  LF follow as far as they fit.
-/

namespace Corehost

open Lib

def CP_UTF8 : UInt32 := 65001

/-- `console_read_data_capacity`. -/
def ReadConsoleMsg.dataCapacity (r : ReadConsoleMsg) : Nat :=
  let localCapacity := bodySize - messageHeaderSize - readConsoleSize
  if r.outputSize ≤ readConsoleSize then 0 else min (r.outputSize - readConsoleSize) localCapacity

/-! ## The converters -/

/-- The text that `unicode::convert_to` reads, which is one of Unicode scalars. -/
def scalars (text : List Char32) : List Char := text.map Char.ofNat

/-- The loop of `u32_prefix_for_wide_units`, with `units` before `text`. -/
def u32PrefixLoop (maxUnits : Nat) : Nat → List Char32 → Nat
  | _, [] => 0
  | units, cp :: text =>
    let nextUnits := if (cp : Nat) > 0xFFFF then 2 else 1
    if units + nextUnits > maxUnits then 0 else u32PrefixLoop maxUnits (units + nextUnits) text + 1

def u32PrefixForWideUnits (text : List Char32) (maxUnits : Nat) : Nat := u32PrefixLoop maxUnits 0 text

def convertU32ToWideRaw (text : List Char32) (outCap : Nat) : Option (List UInt16) :=
  if u32ToWideExactLen text ≤ outCap then some (Utf16.encode (scalars text)) else none

def u32ToUtf8ExactLen (text : List Char32) : Nat :=
  (text.map fun ch : Nat => if ch ≤ 0x7F then 1 else if ch ≤ 0x7FF then 2 else if ch ≤ 0xFFFF then 3 else 4).sum

def u32ToAnsiExactLen (wideCharToMultiByte : UInt32 → List UInt16 → List UInt8) (cp : UInt32) (text : List Char32) :
    Nat :=
  if text = [] then 0
  else if cp = CP_UTF8 then u32ToUtf8ExactLen text
  else (wideCharToMultiByte cp (Utf16.encode (scalars text))).length

def convertU32ToAnsiRaw (wideCharToMultiByte : UInt32 → List UInt16 → List UInt8) (cp : UInt32) (text : List Char32)
    (outCap : Nat) : Option (List UInt8) :=
  if text = [] then some []
  else if cp = CP_UTF8 then
    if u32ToUtf8ExactLen text ≤ outCap then some (Utf8.encode (scalars text)) else none
  else
    let bytes := wideCharToMultiByte cp (Utf16.encode (scalars text))
    if bytes.length ≤ outCap then some bytes else none

/-- The search takes at most as many turns as the text is long. -/
def u32PrefixForAnsiBytes (wideCharToMultiByte : UInt32 → List UInt16 → List UInt8) (cp : UInt32)
    (text : List Char32) (maxBytes : Nat) : Nat :=
  searchLast (fun mid => u32ToAnsiExactLen wideCharToMultiByte cp (text.take mid) ≤ maxBytes) text.length 0 text.length

def appendAsciiRaw (ch : UInt8) (outCap : Nat) (out : List UInt8) : List UInt8 :=
  if out.length < outCap then out ++ [ch] else out

/-! ## The completion -/

/-- `NumBytes` and what the body holds behind the descriptor. -/
structure ReadConsoleReply where
  numBytes : Nat
  data : List UInt8
deriving DecidableEq, Repr

/-- The client's text in UTF-16. -/
def wideReply (line : List Char32) (maxd : Nat) : Option ReadConsoleReply :=
  let maxChars := maxd / 2
  match convertU32ToWideRaw (line.take (u32PrefixForWideUnits line maxChars)) maxChars with
  | none => none
  | some out =>
    let out := if out.length < maxChars then out ++ [0x0D] else out
    let out := if out.length < maxChars then out ++ [0x0A] else out
    some { numBytes := out.length * 2, data := bytesOfWide out }

/-- The client's text in the input code page. -/
def ansiReply (wideCharToMultiByte : UInt32 → List UInt16 → List UInt8) (inputCodePage : UInt32) (line : List Char32)
    (maxd : Nat) : Option ReadConsoleReply :=
  let textCapacity := if maxd ≥ 2 then maxd - 2 else 0
  let copied := line.take (u32PrefixForAnsiBytes wideCharToMultiByte inputCodePage line textCapacity)
  match convertU32ToAnsiRaw wideCharToMultiByte inputCodePage copied textCapacity with
  | none => none
  | some out =>
    let out := appendAsciiRaw 0x0A maxd (appendAsciiRaw 0x0D maxd out)
    some { numBytes := out.length, data := out }

/-- `prepare_console_read_completion`, for the cooked line `cooked` and `readTotal` bytes in `_readbuf`. -/
def prepareConsoleReadCompletion (wideCharToMultiByte : UInt32 → List UInt16 → List UInt8) (aliases : AliasState)
    (inputCodePage : UInt32) (vtEof : Bool) (cooked : List Char32) (readTotal : Nat) (r : ReadConsoleMsg) :
    Option ReadConsoleReply :=
  if vtEof ∧ cooked = [] ∧ readTotal = 0 then some { numBytes := 0, data := [] }
  else
    let line := aliases.expandAlias cooked
    if r.unicode then wideReply line r.dataCapacity else ansiReply wideCharToMultiByte inputCodePage line r.dataCapacity

/-! ## The length of an encoded text -/

theorem scalars_toNat (line : List Char) : scalars (line.map Char.toNat) = line := by
  unfold scalars
  rw [List.map_map]
  exact (List.map_congr_left fun c _ => Char.ofNat_toNat c).trans (List.map_id line)

theorem u32ToWideExactLen_toNat (line : List Char) :
    u32ToWideExactLen (line.map Char.toNat) = (line.flatMap Utf16.encodeChar).length := by
  unfold u32ToWideExactLen
  rw [List.map_map, List.length_flatMap]
  exact congrArg List.sum (List.map_congr_left fun c _ => (Utf16.length_encodeChar c).symm)

theorem u32ToUtf8ExactLen_toNat (line : List Char) :
    u32ToUtf8ExactLen (line.map Char.toNat) = (line.flatMap String.utf8EncodeChar).length := by
  unfold u32ToUtf8ExactLen
  rw [List.map_map, List.length_flatMap]
  exact congrArg List.sum (List.map_congr_left fun c _ => (String.length_utf8EncodeChar c).symm)

/-! ## The longest prefix in UTF-16 -/

/-- The loop stops in front of the first character that does not fit behind `units`. -/
theorem u32PrefixLoop_spec {maxUnits : Nat} : ∀ (line : List Char) (units : Nat), units ≤ maxUnits →
    let k := u32PrefixLoop maxUnits units (line.map Char.toNat)
    k ≤ line.length ∧ units + ((line.take k).flatMap Utf16.encodeChar).length ≤ maxUnits ∧
      (k < line.length → maxUnits < units + ((line.take (k + 1)).flatMap Utf16.encodeChar).length)
  | [], units, hu => ⟨Nat.le_refl _, hu, fun h => absurd h (Nat.lt_irrefl _)⟩
  | c :: line, units, hu => by
    have hlen := Utf16.length_encodeChar c
    simp only [List.map_cons, u32PrefixLoop]
    by_cases hfit : units + (if c.toNat > 0xFFFF then 2 else 1) > maxUnits
    · rw [if_pos hfit]
      refine ⟨Nat.zero_le _, by simpa using hu, fun _ => ?_⟩
      rw [List.take_succ_cons, List.flatMap_cons, List.length_append, hlen]
      omega
    · rw [if_neg hfit]
      rw [← hlen] at hfit ⊢
      obtain ⟨hle, hfits, hnext⟩ := u32PrefixLoop_spec line (units + (Utf16.encodeChar c).length)
        (show units + (Utf16.encodeChar c).length ≤ maxUnits by omega)
      refine ⟨Nat.succ_le_succ hle, ?_, fun hk => ?_⟩
      · rw [List.take_succ_cons, List.flatMap_cons, List.length_append]
        omega
      · have := hnext (Nat.lt_of_succ_lt_succ hk)
        rw [List.take_succ_cons, List.flatMap_cons, List.length_append]
        omega

theorem longestPrefix_wide (line : List Char) (maxUnits : Nat) :
    LongestPrefix Utf16.encodeChar line maxUnits (u32PrefixForWideUnits (line.map Char.toNat) maxUnits) := by
  obtain ⟨hle, hfits, hnext⟩ := u32PrefixLoop_spec line 0 (Nat.zero_le maxUnits)
  rw [Nat.zero_add] at hfits hnext
  exact .of_fold hle hfits hnext

/-! ## The longest prefix in a code page -/

variable {wideCharToMultiByte : UInt32 → List UInt16 → List UInt8} {cp : UInt32}

/-- One character in the code page. -/
def ansiChar (wideCharToMultiByte : UInt32 → List UInt16 → List UInt8) (cp : UInt32) (c : Char) : List UInt8 :=
  if cp = CP_UTF8 then String.utf8EncodeChar c else wideCharToMultiByte cp (Utf16.encodeChar c)

/-- WideCharToMultiByte encodes a text character by character. -/
def EncodesChars (wideCharToMultiByte : UInt32 → List UInt16 → List UInt8) (cp : UInt32) : Prop :=
  ∀ text : List Char, wideCharToMultiByte cp (Utf16.encode text) =
    text.flatMap fun c => wideCharToMultiByte cp (Utf16.encodeChar c)

theorem u32ToAnsiExactLen_toNat (hconv : cp ≠ CP_UTF8 → EncodesChars wideCharToMultiByte cp) (line : List Char) :
    u32ToAnsiExactLen wideCharToMultiByte cp (line.map Char.toNat) =
      (line.flatMap (ansiChar wideCharToMultiByte cp)).length := by
  unfold u32ToAnsiExactLen ansiChar
  by_cases hnil : line = []
  · rw [hnil]; rfl
  · rw [if_neg (by simpa using hnil), scalars_toNat]
    split
    · exact u32ToUtf8ExactLen_toNat line
    · next hcp => rw [hconv hcp line]

/-- With as much room as the text needs, the conversion has a result. -/
theorem convertU32ToAnsiRaw_toNat (hconv : cp ≠ CP_UTF8 → EncodesChars wideCharToMultiByte cp) {line : List Char} {outCap : Nat}
    (hfits : (line.flatMap (ansiChar wideCharToMultiByte cp)).length ≤ outCap) :
    convertU32ToAnsiRaw wideCharToMultiByte cp (line.map Char.toNat) outCap =
      some (line.flatMap (ansiChar wideCharToMultiByte cp)) := by
  unfold convertU32ToAnsiRaw
  unfold ansiChar at hfits ⊢
  by_cases hnil : line = []
  · rw [hnil]; rfl
  · rw [if_neg (by simpa using hnil), scalars_toNat]
    split
    · next hcp =>
      simp only [if_pos hcp] at hfits ⊢
      rw [if_pos (by rwa [u32ToUtf8ExactLen_toNat])]
      rfl
    · next hcp =>
      simp only [if_neg hcp] at hfits ⊢
      rw [hconv hcp line, if_pos hfits]

theorem longestPrefix_ansi (hconv : cp ≠ CP_UTF8 → EncodesChars wideCharToMultiByte cp) (line : List Char) (maxBytes : Nat) :
    LongestPrefix (ansiChar wideCharToMultiByte cp) line maxBytes
      (u32PrefixForAnsiBytes wideCharToMultiByte cp (line.map Char.toNat) maxBytes) := by
  have h := longestPrefix_searchLast (ansiChar wideCharToMultiByte cp) line maxBytes
  simp only [← u32ToAnsiExactLen_toNat hconv, List.map_take] at h
  unfold u32PrefixForAnsiBytes
  rw [List.length_map]
  exact h

/-! ## The line end -/

/-- Two elements behind `out`, as far as they fit. -/
theorem append_two {α : Type*} {out : List α} {cap : Nat} (a b : α) (h : out.length ≤ cap) :
    (if (if out.length < cap then out ++ [a] else out).length < cap then
        (if out.length < cap then out ++ [a] else out) ++ [b]
      else if out.length < cap then out ++ [a] else out) = out ++ [a, b].take (cap - out.length) := by
  rcases Nat.lt_or_ge out.length cap with hlt | hge
  · rw [if_pos hlt, List.length_append, List.length_singleton]
    by_cases hlt' : out.length + 1 < cap
    · rw [if_pos hlt', List.append_assoc, List.take_of_length_le (by simp; omega)]
      rfl
    · rw [if_neg hlt', show cap - out.length = 1 by omega]
      rfl
  · rw [if_neg (Nat.not_lt.mpr hge), if_neg (Nat.not_lt.mpr hge), show cap - out.length = 0 by omega, List.take_zero,
      List.append_nil]

theorem length_bytesOfWide (s : WideString) : (bytesOfWide s).length = 2 * s.length := by
  induction s with
  | nil => rfl
  | cons ch s ih =>
    rw [bytesOfWide, List.flatMap_cons, List.length_append]
    change 2 + (bytesOfWide s).length = 2 * (s.length + 1)
    rw [ih]
    omega

/-- A client buffer of `cap` elements with the longest prefix of `line` that fits `textCap` elements, and behind it as
much of the line end as fits. -/
def EncodedLine {β : Type*} (enc : Char → List β) (crlf : List β) (line : List Char) (textCap cap : Nat) (out : List β) :
    Prop :=
  ∃ k, LongestPrefix enc line textCap k ∧
    out = (line.take k).flatMap enc ++ crlf.take (cap - ((line.take k).flatMap enc).length)

theorem EncodedLine.length_le {β : Type*} {enc : Char → List β} {crlf : List β} {line : List Char} {textCap cap : Nat}
    {out : List β} (h : EncodedLine enc crlf line textCap cap out) (hcap : textCap ≤ cap) : out.length ≤ cap := by
  obtain ⟨k, hk, rfl⟩ := h
  have := hk.fits
  rw [List.length_append, List.length_take]
  omega

theorem wideReply_spec (line : List Char) (maxd : Nat) :
    ∃ out, EncodedLine Utf16.encodeChar [0x0D, 0x0A] line (maxd / 2) (maxd / 2) out ∧
      wideReply (line.map Char.toNat) maxd = some { numBytes := out.length * 2, data := bytesOfWide out } := by
  have hk := longestPrefix_wide line (maxd / 2)
  refine ⟨_, ⟨_, hk, rfl⟩, ?_⟩
  have hroom := hk.fits
  rw [← u32ToWideExactLen_toNat] at hroom
  unfold wideReply convertU32ToWideRaw
  dsimp only
  rw [← List.map_take, if_pos hroom, scalars_toNat]
  dsimp only
  rw [append_two _ _ (show (Utf16.encode _).length ≤ maxd / 2 from hk.fits)]
  rfl

theorem ansiReply_spec (hconv : cp ≠ CP_UTF8 → EncodesChars wideCharToMultiByte cp) (line : List Char) (maxd : Nat) :
    ∃ out, EncodedLine (ansiChar wideCharToMultiByte cp) [0x0D, 0x0A] line (maxd - 2) maxd out ∧
      ansiReply wideCharToMultiByte cp (line.map Char.toNat) maxd = some { numBytes := out.length, data := out } := by
  have hcap : (if maxd ≥ 2 then maxd - 2 else 0) = maxd - 2 := by split <;> omega
  have hk := longestPrefix_ansi hconv line (maxd - 2)
  refine ⟨_, ⟨_, hk, rfl⟩, ?_⟩
  unfold ansiReply appendAsciiRaw
  dsimp only
  rw [hcap, ← List.map_take, convertU32ToAnsiRaw_toNat hconv hk.fits]
  dsimp only
  rw [append_two _ _ (Nat.le_trans hk.fits (Nat.sub_le _ _))]

/-- The completion never has more bytes than the client has room for, and no converter has too little room. Unless the
terminal has closed with nothing typed and nothing read, the completion is the longest prefix of the line that fits, in
whole characters, and CR LF as far as they fit. -/
theorem read_console_completion_fits (wideCharToMultiByte : UInt32 → List UInt16 → List UInt8) (aliases : AliasState)
    (inputCodePage : UInt32) (vtEof : Bool) (cooked : List Char32) (line : List Char) (readTotal : Nat)
    (r : ReadConsoleMsg) (hline : aliases.expandAlias cooked = line.map Char.toNat)
    (hconv : inputCodePage ≠ CP_UTF8 → EncodesChars wideCharToMultiByte inputCodePage) :
    ∃ reply, prepareConsoleReadCompletion wideCharToMultiByte aliases inputCodePage vtEof cooked readTotal r = some reply ∧
      reply.data.length = reply.numBytes ∧ reply.numBytes ≤ r.dataCapacity ∧
      (vtEof = true ∧ cooked = [] ∧ readTotal = 0 → reply.data = []) ∧
      (¬ (vtEof = true ∧ cooked = [] ∧ readTotal = 0) →
        if r.unicode then
          ∃ units, reply.data = bytesOfWide units ∧
            EncodedLine Utf16.encodeChar [0x0D, 0x0A] line (r.dataCapacity / 2) (r.dataCapacity / 2) units
        else EncodedLine (ansiChar wideCharToMultiByte inputCodePage) [0x0D, 0x0A] line (r.dataCapacity - 2)
          r.dataCapacity reply.data) := by
  unfold prepareConsoleReadCompletion
  by_cases heof : vtEof = true ∧ cooked = [] ∧ readTotal = 0
  · rw [if_pos heof]
    exact ⟨_, rfl, rfl, Nat.zero_le _, fun _ => rfl, fun h => absurd heof h⟩
  · rw [if_neg heof]
    dsimp only
    rw [hline]
    cases r.unicode with
    | true =>
      obtain ⟨out, hout, hreply⟩ := wideReply_spec line r.dataCapacity
      have hlen := hout.length_le (Nat.le_refl _)
      refine ⟨_, hreply, ?_, ?_, fun h => absurd h heof, fun _ => ⟨out, rfl, hout⟩⟩
      · rw [length_bytesOfWide, Nat.mul_comm]
      · show out.length * 2 ≤ _
        omega
    | false =>
      obtain ⟨out, hout, hreply⟩ := ansiReply_spec hconv line r.dataCapacity
      exact ⟨_, hreply, rfl, hout.length_le (Nat.sub_le _ _), fun h => absurd h heof, fun _ => hout⟩

/-- The last byte of each unit, which is what a code page of single bytes stores for ASCII. -/
def lowBytes (_ : UInt32) (units : List UInt16) : List UInt8 := units.map UInt16.toUInt8

theorem encodesChars_lowBytes (cp : UInt32) : EncodesChars lowBytes cp := fun _ => List.map_flatMap

/-- The client has room for `a` and CR, and gets no more of `ab`. -/
theorem read_console_completion_fits_three : ∃ reply,
    prepareConsoleReadCompletion lowBytes {} 437 false [0x61, 0x62] 2 { outputSize := 23, unicode := false } = some reply ∧
      reply.numBytes ≤ 3 ∧
      EncodedLine (ansiChar lowBytes 437) [0x0D, 0x0A] ['a', 'b'] 1 3 reply.data := by
  obtain ⟨reply, hreply, -, hle, -, hdata⟩ := read_console_completion_fits lowBytes {} 437 false [0x61, 0x62] ['a', 'b'] 2
    { outputSize := 23, unicode := false } (by decide) fun _ => encodesChars_lowBytes 437
  exact ⟨reply, hreply, hle, hdata (by decide)⟩

/-- The terminal closes before anything is typed: the completion is empty, without CR LF. -/
theorem no_line_end_at_eof :
    prepareConsoleReadCompletion lowBytes {} 437 true [] 0 {} = some { numBytes := 0, data := [] } ∧
      ¬ EncodedLine Utf16.encodeChar [0x0D, 0x0A] [] 2034 2034 [] := by
  refine ⟨by decide, fun ⟨k, _, h⟩ => ?_⟩
  rw [List.take_nil] at h
  exact absurd h (by decide)

end Corehost
