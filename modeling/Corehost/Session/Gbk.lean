import Corehost.Lib.RawBuffer
import Corehost.Row.Model

/-!
# Conversions of GBK

The conversions between GBK and UTF-16 without Windows (`char_convert.hpp` with
`COREHOST_ANSI_OPT`): into buffers, into raw memory, and their lengths. The
generated tables are the parameter `GbkTables`.

* `gbkText`, `gbkCodes`: the characters of a string of bytes and the codes of a
  string of units;
* `convertGbkToWideRawLoop_eq`, `convertWideToGbkRawLoop_eq`: each conversion
  writes what belongs to them;
* `gbk_sizes_exact`: the lengths are the lengths of the conversions, and no
  conversion writes outside its memory.
-/

namespace Corehost

open Lib

/-! ## The tables -/

/-- `gbk_range`. -/
structure GbkRange where
  first : UInt16
  last : UInt16
  mappedFirst : UInt16
deriving DecidableEq, Repr

/-- `gbk_decode_ranges` and `gbk_encode_ranges`. -/
structure GbkTables where
  decodeRanges : List GbkRange
  encodeRanges : List GbkRange
deriving DecidableEq, Repr

def gbkInvalidCodepoint : Char32 := 0xFFFFFFFF

def unicodeReplacementCharacter : Char32 := 0xFFFD

def gbkDefaultByte : UInt16 := 0x3F

def gbkIsLead (byte : UInt8) : Bool := 0x81 ≤ byte ∧ byte ≤ 0xFE

def gbkIsTrail (byte : UInt8) : Bool := 0x40 ≤ byte ∧ byte ≤ 0xFE ∧ byte ≠ 0x7F

/-- `gbk_find_range`: a search for the first range that does not end in front of the key. -/
def gbkFindRange (ranges : List GbkRange) (key : Nat) : Option GbkRange :=
  (ranges.find? fun r => key ≤ r.last.toNat).filter fun r => r.first.toNat ≤ key

/-! ## From GBK -/

def gbkDecodeCode (t : GbkTables) (code : UInt16) : Char32 :=
  match gbkFindRange t.decodeRanges code.toNat with
  | none => gbkInvalidCodepoint
  | some r => r.mappedFirst.toNat + (code.toNat - r.first.toNat)

/-- `gbk_decode_next` for a byte and the bytes behind it: the character, and the bytes behind that. -/
def gbkDecodeNext (t : GbkTables) (byte : UInt8) (s : List UInt8) : Char32 × List UInt8 :=
  if byte ≤ 0x7F then (byte.toNat, s)
  else if byte = 0x80 then (0x20AC, s)
  else if gbkIsLead byte then
    match s with
    | [] => (unicodeReplacementCharacter, s)
    | trail :: rest =>
      if gbkIsTrail trail then
        let mapped := gbkDecodeCode t (byte.toUInt16 <<< 8 ||| trail.toUInt16)
        (if mapped = gbkInvalidCodepoint then unicodeReplacementCharacter else mapped, rest)
      else (unicodeReplacementCharacter, s)
  else (unicodeReplacementCharacter, s)

theorem gbkDecodeNext_le (t : GbkTables) (byte : UInt8) (s : List UInt8) : (gbkDecodeNext t byte s).2.length ≤ s.length := by
  unfold gbkDecodeNext
  split_ifs
  · exact Nat.le_refl _
  · exact Nat.le_refl _
  · rcases s with _ | ⟨trail, rest⟩
    · exact Nat.le_refl _
    · by_cases htrail : gbkIsTrail trail
      · simp only [if_pos htrail]
        exact Nat.le_succ _
      · simp only [if_neg htrail]
        exact Nat.le_refl _
  · exact Nat.le_refl _

/-- The loops of `convert_gbk_to_u32` and `convert_gbk_to_wstr`. -/
def convertGbkLoop {α : Type} (t : GbkTables) (unit : Char32 → α) : List UInt8 → RawBuffer α → Option (RawBuffer α)
  | [], out => some out
  | byte :: s, out =>
    (out.put (unit (gbkDecodeNext t byte s).1)).bind (convertGbkLoop t unit (gbkDecodeNext t byte s).2 ·)
termination_by s => s.length
decreasing_by exact Nat.lt_succ_of_le (gbkDecodeNext_le t byte s)

def convertGbkToU32 (t : GbkTables) (s : List UInt8) : Option (List Char32) :=
  (convertGbkLoop t id s ⟨s.length, []⟩).map (·.data)

/-- `static_cast<wchar_t>`. -/
def wideUnit (cp : Char32) : UInt16 := .ofNat cp

def convertGbkToWstr (t : GbkTables) (s : List UInt8) : Option (List UInt16) :=
  (convertGbkLoop t wideUnit s ⟨s.length, []⟩).map (·.data)

def convertGbkToWideRawLoop (t : GbkTables) : List UInt8 → RawBuffer UInt16 → Option (Bool × RawBuffer UInt16)
  | [], out => some (true, out)
  | byte :: s, out =>
    if out.data.length ≥ out.capacity then some (false, out)
    else (out.put (wideUnit (gbkDecodeNext t byte s).1)).bind (convertGbkToWideRawLoop t (gbkDecodeNext t byte s).2 ·)
termination_by s => s.length
decreasing_by exact Nat.lt_succ_of_le (gbkDecodeNext_le t byte s)

/-- `convert_gbk_to_wide_raw`: whether everything fits, and what is written. -/
def convertGbkToWideRaw (t : GbkTables) (s : List UInt8) (outCap : Nat) : Option (Bool × List UInt16) :=
  (convertGbkToWideRawLoop t s ⟨outCap, []⟩).map fun r => (r.1, r.2.data)

def gbkToWstrLen (t : GbkTables) : List UInt8 → Nat
  | [] => 0
  | byte :: s => gbkToWstrLen t (gbkDecodeNext t byte s).2 + 1
termination_by s => s.length
decreasing_by exact Nat.lt_succ_of_le (gbkDecodeNext_le t byte s)

/-! ## To GBK -/

def gbkEncodeCodepoint (t : GbkTables) (cp : Char32) : UInt16 :=
  if cp ≤ 0x7F then .ofNat cp
  else if cp = 0x20AC then 0x80
  else if cp > 0xFFFF then gbkDefaultByte
  else
    match gbkFindRange t.encodeRanges cp with
    | none => gbkDefaultByte
    | some r => .ofNat (r.mappedFirst.toNat + (cp - r.first.toNat))

def gbkAppendCode (code : UInt16) (out : RawBuffer UInt8) : Option (RawBuffer UInt8) :=
  if code ≤ 0xFF then out.put code.toUInt8
  else (out.put (code >>> 8).toUInt8).bind (·.put (code &&& 0xFF).toUInt8)

def gbkAppendCodeRaw (code : UInt16) (out : RawBuffer UInt8) : Option (Bool × RawBuffer UInt8) :=
  if code ≤ 0xFF then
    if out.data.length + 1 > out.capacity then some (false, out) else (out.put code.toUInt8).map (true, ·)
  else if out.data.length + 2 > out.capacity then some (false, out)
  else ((out.put (code >>> 8).toUInt8).bind (·.put (code &&& 0xFF).toUInt8)).map (true, ·)

/-- The checks for a surrogate pair. -/
def isSurrogatePair (wc next : UInt16) : Bool := 0xD800 ≤ wc ∧ wc ≤ 0xDBFF ∧ 0xDC00 ≤ next ∧ next ≤ 0xDFFF

def convertWstrToGbkLoop (t : GbkTables) : List UInt16 → RawBuffer UInt8 → Option (RawBuffer UInt8)
  | [], out => some out
  | [wc], out => gbkAppendCode (gbkEncodeCodepoint t wc.toNat) out
  | wc :: next :: ws, out =>
    if isSurrogatePair wc next then (gbkAppendCode gbkDefaultByte out).bind (convertWstrToGbkLoop t ws ·)
    else (gbkAppendCode (gbkEncodeCodepoint t wc.toNat) out).bind (convertWstrToGbkLoop t (next :: ws) ·)

/-- `convert_wstr_to_gbk`, into `wide_to_gbk_max_bytes`. -/
def convertWstrToGbk (t : GbkTables) (ws : List UInt16) : Option (List UInt8) :=
  (convertWstrToGbkLoop t ws ⟨ws.length * 2, []⟩).map (·.data)

def convertWideToGbkRawLoop (t : GbkTables) : List UInt16 → RawBuffer UInt8 → Option (Bool × RawBuffer UInt8)
  | [], out => some (true, out)
  | [wc], out => gbkAppendCodeRaw (gbkEncodeCodepoint t wc.toNat) out
  | wc :: next :: ws, out =>
    if isSurrogatePair wc next then
      (gbkAppendCodeRaw gbkDefaultByte out).bind fun r =>
        if r.1 then convertWideToGbkRawLoop t ws r.2 else some (false, r.2)
    else
      (gbkAppendCodeRaw (gbkEncodeCodepoint t wc.toNat) out).bind fun r =>
        if r.1 then convertWideToGbkRawLoop t (next :: ws) r.2 else some (false, r.2)

/-- `convert_wide_to_gbk_raw`: whether everything fits, and what is written. -/
def convertWideToGbkRaw (t : GbkTables) (ws : List UInt16) (outCap : Nat) : Option (Bool × List UInt8) :=
  (convertWideToGbkRawLoop t ws ⟨outCap, []⟩).map fun r => (r.1, r.2.data)

/-- The bytes that `wstr_to_gbk_len` counts for a unit. -/
def wstrToGbkLen (t : GbkTables) : List UInt16 → Nat
  | [] => 0
  | [wc] => if gbkEncodeCodepoint t wc.toNat ≤ 0xFF then 1 else 2
  | wc :: next :: ws =>
    if isSurrogatePair wc next then wstrToGbkLen t ws + 1
    else wstrToGbkLen t (next :: ws) + if gbkEncodeCodepoint t wc.toNat ≤ 0xFF then 1 else 2

/-! ## What the conversions write -/

variable (t : GbkTables)

/-- The characters of a string of bytes. -/
def gbkText : List UInt8 → List Char32
  | [] => []
  | byte :: s => (gbkDecodeNext t byte s).1 :: gbkText (gbkDecodeNext t byte s).2
termination_by s => s.length
decreasing_by exact Nat.lt_succ_of_le (gbkDecodeNext_le t byte s)

/-- The codes of a string of units: one for a surrogate pair. -/
def gbkCodes : List UInt16 → List UInt16
  | [] => []
  | [wc] => [gbkEncodeCodepoint t wc.toNat]
  | wc :: next :: ws =>
    if isSurrogatePair wc next then gbkDefaultByte :: gbkCodes ws
    else gbkEncodeCodepoint t wc.toNat :: gbkCodes (next :: ws)

/-- The bytes of a code. -/
def codeBytes (code : UInt16) : List UInt8 :=
  if code ≤ 0xFF then [code.toUInt8] else [(code >>> 8).toUInt8, (code &&& 0xFF).toUInt8]

theorem length_gbkText_le (s : List UInt8) : (gbkText t s).length ≤ s.length := by
  fun_induction gbkText t s with
  | case1 => exact Nat.le_refl _
  | case2 byte s ih => exact Nat.succ_le_succ (Nat.le_trans ih (gbkDecodeNext_le t byte s))

theorem gbkToWstrLen_eq (s : List UInt8) : gbkToWstrLen t s = (gbkText t s).length := by
  fun_induction gbkText t s with
  | case1 => rw [gbkToWstrLen, List.length_nil]
  | case2 byte s ih => rw [gbkToWstrLen, ih, List.length_cons]

theorem convertGbkLoop_eq {α : Type} (unit : Char32 → α) (s : List UInt8) (out : RawBuffer α) :
    convertGbkLoop t unit s out = out.putAll ((gbkText t s).map unit) := by
  fun_induction gbkText t s generalizing out with
  | case1 => rw [convertGbkLoop]; rfl
  | case2 byte s ih =>
    rw [convertGbkLoop, List.map_cons, RawBuffer.putAll]
    exact congrArg _ (funext ih)

theorem convertGbkToWideRawLoop_eq (s : List UInt8) (out : RawBuffer UInt16) :
    convertGbkToWideRawLoop t s out = out.putChunks ((gbkText t s).map fun cp => [wideUnit cp]) := by
  fun_induction gbkText t s generalizing out with
  | case1 => rw [convertGbkToWideRawLoop]; rfl
  | case2 byte s ih =>
    rw [convertGbkToWideRawLoop, List.map_cons, RawBuffer.putChunks, RawBuffer.putAll_singleton]
    exact if_congr Nat.lt_succ_iff.symm rfl (congrArg _ (funext ih))

theorem gbkAppendCode_eq (code : UInt16) (out : RawBuffer UInt8) : gbkAppendCode code out = out.putAll (codeBytes code) := by
  unfold gbkAppendCode codeBytes
  split_ifs
  · rw [RawBuffer.putAll_singleton]
  · rw [RawBuffer.putAll]
    exact congrArg _ (funext fun b => (RawBuffer.putAll_singleton (b := b) _).symm)

theorem gbkAppendCodeRaw_eq (code : UInt16) (out : RawBuffer UInt8) :
    gbkAppendCodeRaw code out = if out.data.length + (codeBytes code).length > out.capacity then some (false, out)
      else (out.putAll (codeBytes code)).map (true, ·) := by
  rw [← gbkAppendCode_eq]
  unfold gbkAppendCodeRaw gbkAppendCode codeBytes
  by_cases h : code ≤ 0xFF
  · simp only [if_pos h]
    rfl
  · simp only [if_neg h]
    rfl

theorem length_codeBytes (code : UInt16) : (codeBytes code).length = if code ≤ 0xFF then 1 else 2 := by
  unfold codeBytes
  split_ifs <;> rfl

theorem wstrToGbkLen_eq (ws : List UInt16) : wstrToGbkLen t ws = ((gbkCodes t ws).map codeBytes).flatten.length := by
  fun_induction gbkCodes t ws with
  | case1 => rfl
  | case2 wc => rw [wstrToGbkLen, List.map_singleton, List.flatten_singleton, length_codeBytes]
  | case3 wc next ws h ih =>
    rw [wstrToGbkLen, if_pos h, List.map_cons, List.flatten_cons, List.length_append, ← ih, Nat.add_comm]
    rfl
  | case4 wc next ws h ih =>
    rw [wstrToGbkLen, if_neg h, List.map_cons, List.flatten_cons, List.length_append, ← ih, Nat.add_comm, length_codeBytes]

theorem length_gbkCodes_le (ws : List UInt16) : ((gbkCodes t ws).map codeBytes).flatten.length ≤ ws.length * 2 := by
  rw [← wstrToGbkLen_eq]
  fun_induction wstrToGbkLen t ws with
  | case1 => exact Nat.le_refl _
  | case2 wc h => simp
  | case3 wc h => simp
  | case4 wc next ws h ih => simp only [List.length_cons] at ih ⊢; omega
  | case5 wc next ws h ih => simp only [List.length_cons] at ih ⊢; split_ifs <;> omega

theorem convertWstrToGbkLoop_eq (ws : List UInt16) (out : RawBuffer UInt8) :
    convertWstrToGbkLoop t ws out = out.putAll ((gbkCodes t ws).map codeBytes).flatten := by
  fun_induction gbkCodes t ws generalizing out with
  | case1 => rfl
  | case2 wc => rw [convertWstrToGbkLoop, gbkAppendCode_eq, List.map_singleton, List.flatten_singleton]
  | case3 wc next ws h ih =>
    rw [convertWstrToGbkLoop, if_pos h, gbkAppendCode_eq, List.map_cons, List.flatten_cons, RawBuffer.putAll_append]
    exact congrArg _ (funext ih)
  | case4 wc next ws h ih =>
    rw [convertWstrToGbkLoop, if_neg h, gbkAppendCode_eq, List.map_cons, List.flatten_cons, RawBuffer.putAll_append]
    exact congrArg _ (funext ih)

/-- A code in front of what is written behind it. -/
theorem gbkAppendCodeRaw_bind (code : UInt16) (out : RawBuffer UInt8) {cs : List (List UInt8)}
    {f : RawBuffer UInt8 → Option (Bool × RawBuffer UInt8)} (hf : ∀ b, f b = b.putChunks cs) :
    ((gbkAppendCodeRaw code out).bind fun r => if r.1 then f r.2 else some (false, r.2)) =
      out.putChunks (codeBytes code :: cs) := by
  rw [gbkAppendCodeRaw_eq, RawBuffer.putChunks]
  by_cases h : out.data.length + (codeBytes code).length > out.capacity
  · rw [if_pos h, if_pos h]
    rfl
  · rw [if_neg h, if_neg h, Option.bind_map]
    exact congrArg _ (funext hf)

theorem convertWideToGbkRawLoop_eq (ws : List UInt16) (out : RawBuffer UInt8) :
    convertWideToGbkRawLoop t ws out = out.putChunks ((gbkCodes t ws).map codeBytes) := by
  fun_induction gbkCodes t ws generalizing out with
  | case1 => rfl
  | case2 wc =>
    rw [convertWideToGbkRawLoop, List.map_singleton, RawBuffer.putChunks, gbkAppendCodeRaw_eq]
    exact if_congr Iff.rfl rfl Option.map_eq_bind
  | case3 wc next ws h ih =>
    rw [convertWideToGbkRawLoop, if_pos h, List.map_cons]
    exact gbkAppendCodeRaw_bind _ _ ih
  | case4 wc next ws h ih =>
    rw [convertWideToGbkRawLoop, if_neg h, List.map_cons]
    exact gbkAppendCodeRaw_bind _ _ ih

/-! ## The sizes -/

/-- The lengths are those of the conversions, which never write outside their memory; the raw ones write a prefix, all
of it exactly when it fits. -/
theorem gbk_sizes_exact :
    (∀ s, ∃ out, convertGbkToWstr t s = some out ∧ out.length = gbkToWstrLen t s ∧
        (∃ text, convertGbkToU32 t s = some text ∧ text.length = gbkToWstrLen t s) ∧
        ∀ outCap, ∃ written, convertGbkToWideRaw t s outCap = some (decide (gbkToWstrLen t s ≤ outCap), written) ∧
          written <+: out ∧ written.length ≤ outCap ∧ (gbkToWstrLen t s ≤ outCap → written = out)) ∧
      ∀ ws, ∃ out, convertWstrToGbk t ws = some out ∧ out.length = wstrToGbkLen t ws ∧
        ∀ outCap, ∃ written, convertWideToGbkRaw t ws outCap = some (decide (wstrToGbkLen t ws ≤ outCap), written) ∧
          written <+: out ∧ written.length ≤ outCap ∧ (wstrToGbkLen t ws ≤ outCap → written = out) := by
  constructor
  · intro s
    have hlen {α : Type} (unit : Char32 → α) : ((gbkText t s).map unit).length ≤ s.length := by
      rw [List.length_map]
      exact length_gbkText_le t s
    refine ⟨(gbkText t s).map wideUnit, ?_, ?_, ⟨(gbkText t s).map id, ?_, ?_⟩, fun outCap => ?_⟩
    · rw [convertGbkToWstr, convertGbkLoop_eq, RawBuffer.putAll_new (hlen _)]
    · rw [List.length_map, gbkToWstrLen_eq]
    · rw [convertGbkToU32, convertGbkLoop_eq, RawBuffer.putAll_new (hlen _)]
    · rw [List.length_map, gbkToWstrLen_eq]
    · rw [convertGbkToWideRaw, convertGbkToWideRawLoop_eq, gbkToWstrLen_eq]
      have hflat : ((gbkText t s).map fun cp => [wideUnit cp]).flatten = (gbkText t s).map wideUnit := by
        rw [← List.flatMap_def, List.map_eq_flatMap]
      have hraw := RawBuffer.putChunks_new ((gbkText t s).map fun cp => [wideUnit cp]) outCap
      rwa [hflat, List.length_map] at hraw
  · intro ws
    refine ⟨((gbkCodes t ws).map codeBytes).flatten, ?_, (wstrToGbkLen_eq t ws).symm, fun outCap => ?_⟩
    · rw [convertWstrToGbk, convertWstrToGbkLoop_eq, RawBuffer.putAll_new (length_gbkCodes_le t ws)]
    · rw [convertWideToGbkRaw, convertWideToGbkRawLoop_eq, wstrToGbkLen_eq]
      exact RawBuffer.putChunks_new _ outCap

end Corehost
