import Corehost.Lib.Base64
import Corehost.Row.Model

/-!
# The size of an inline image

The model of `image_size_from_base64` (`inline_image.hpp`), which reads the size
of an image in pixels from the header of its file. A read is nothing when its
index is outside the bytes, so a result means that every index was inside.

* `decodePrefix_eq`: what `decode_prefix` returns;
* `jpegStep_reads`: a step of the JPEG walk reads inside the bytes and advances;
* `imageSize_some`: the detection ends, and every index is inside;
* `jpegWalk_frame`: the walk finds the first frame behind well-formed items;
* `image_size_exact`: all of it for a payload.
-/

namespace Corehost

open Lib

/-! ## Base64 -/

/-- `base64_value`; nothing for `-1`. -/
def base64Value (c : Char32) : Option Nat :=
  if 0x41 ≤ c ∧ c ≤ 0x5A then some (c - 0x41)
  else if 0x61 ≤ c ∧ c ≤ 0x7A then some (c - 0x61 + 26)
  else if 0x30 ≤ c ∧ c ≤ 0x39 then some (c - 0x30 + 52)
  else if c = 0x2B ∨ c = 0x2D then some 62
  else if c = 0x2F ∨ c = 0x5F then some 63
  else none

/-- The loop of `decode_prefix`. -/
def decodeLoop (limit : Nat) : List Char32 → UInt32 → Nat → List UInt8 → List UInt8
  | [], _, _, out => out
  | c :: cs, acc, bits, out =>
    match base64Value c with
    | none => out
    | some v =>
      let acc := (acc <<< 6) ||| .ofNat v
      let bits := bits + 6
      if bits ≥ 8 then
        let bits := bits - 8
        let out := out ++ [((acc >>> .ofNat bits) &&& 0xFF).toUInt8]
        if out.length ≥ limit then out else decodeLoop limit cs acc bits out
      else decodeLoop limit cs acc bits out

def decodePrefix (b64 : List Char32) (limit : Nat) : List UInt8 := decodeLoop limit b64 0 0 []

/-! ## The headers -/

structure ImagePixelSize where
  width : UInt32 := 0
  height : UInt32 := 0
deriving DecidableEq, Repr

section Reads

variable (d : List UInt8) (i : Nat)

def be16 : Option UInt32 := do return ((← d[i]?).toUInt32 <<< 8) ||| (← d[i + 1]?).toUInt32

def be32 : Option UInt32 := do return ((← be16 d i) <<< 16) ||| (← be16 d (i + 2))

def le16 : Option UInt32 := do return (← d[i]?).toUInt32 ||| ((← d[i + 1]?).toUInt32 <<< 8)

def le24 : Option UInt32 := do return (← le16 d i) ||| ((← d[i + 2]?).toUInt32 <<< 16)

def le32 : Option UInt32 := do return (← le16 d i) ||| ((← le16 d (i + 2)) <<< 16)

end Reads

/-- `d[i] == b && d[i + 1] == …`. -/
def matchesAt (d : List UInt8) : Nat → List UInt8 → Option Bool
  | _, [] => some true
  | i, b :: bs => d[i]?.bind fun x => if x = b then matchesAt d (i + 1) bs else some false

/-- `n >= least && d[0] == …`. -/
def startsWith (d : List UInt8) (least : Nat) (bs : List UInt8) : Option Bool :=
  if d.length ≥ least then matchesAt d 0 bs else some false

/-- Two conditions with `&&`. -/
def bothMatch (a b : Option Bool) : Option Bool := a.bind fun x => if x then b else some false

def pngSize (d : List UInt8) : Option (Option ImagePixelSize) := do return some ⟨← be32 d 16, ← be32 d 20⟩

def gifSize (d : List UInt8) : Option (Option ImagePixelSize) := do return some ⟨← le16 d 6, ← le16 d 8⟩

/-- A negative height is top-down. -/
def bmpSize (d : List UInt8) : Option (Option ImagePixelSize) := do
  let h ← le32 d 22
  return some ⟨← le32 d 18, if h ≥ 0x80000000 then 0 - h else h⟩

/-- Lossy (`VP8 `), lossless (`VP8L`) or extended (`VP8X`). -/
def webpSize (d : List UInt8) : Option (Option ImagePixelSize) := do
  if ← matchesAt d 12 [0x56, 0x50, 0x38, 0x58] then return some ⟨(← le24 d 24) + 1, (← le24 d 27) + 1⟩
  else if ← bothMatch (matchesAt d 12 [0x56, 0x50, 0x38, 0x4C]) (matchesAt d 20 [0x2F]) then
    let b ← le32 d 21
    return some ⟨(b &&& 0x3FFF) + 1, ((b >>> 14) &&& 0x3FFF) + 1⟩
  else if ← bothMatch (matchesAt d 12 [0x56, 0x50, 0x38, 0x20]) (matchesAt d 23 [0x9D, 0x01, 0x2A]) then
    return some ⟨(← le16 d 26) &&& 0x3FFF, (← le16 d 28) &&& 0x3FFF⟩
  else return none

/-! ## JPEG -/

def isSof (marker : UInt8) : Bool := 0xC0 ≤ marker && marker ≤ 0xCF && marker != 0xC4 && marker != 0xC8 && marker != 0xCC

/-- A marker without a length: SOI, RSTn or TEM. -/
def isStandalone (marker : UInt8) : Bool := marker == 0xD8 || (0xD0 ≤ marker && marker ≤ 0xD7) || marker == 0x01

/-- What a turn of the walk over the segments ends in. -/
inductive JpegStep
  | done (size : Option ImagePixelSize)
  | next (i : Nat)
deriving DecidableEq, Repr

def jpegStep (d : List UInt8) (i : Nat) : Option JpegStep := do
  if (← d[i]?) ≠ 0xFF then return .done none
  else
    let marker ← d[i + 1]?
    if marker = 0xFF then return .next (i + 1)
    else if isSof marker then return .done (some ⟨← be16 d (i + 7), ← be16 d (i + 5)⟩)
    else if isStandalone marker then return .next (i + 2)
    else return .next (i + 2 + (← be16 d (i + 2)).toNat)

/-- The walk, for at most so many turns; nothing while it goes on. -/
def jpegWalk (d : List UInt8) : Nat → Nat → Option (Option ImagePixelSize)
  | n, i =>
    if i + 9 ≤ d.length then
      match n with
      | 0 => none
      | n + 1 => (jpegStep d i).bind fun
        | .done size => some size
        | .next i => jpegWalk d n i
    else some none

/-- `image_size_from_base64` behind `decode_prefix`. -/
def imageSize (d : List UInt8) : Option (Option ImagePixelSize) := do
  if ← startsWith d 24 [0x89, 0x50, 0x4E, 0x47] then pngSize d
  else if ← startsWith d 10 [0x47, 0x49, 0x46] then gifSize d
  else if ← startsWith d 26 [0x42, 0x4D] then bmpSize d
  else if ← bothMatch (startsWith d 30 [0x52, 0x49, 0x46, 0x46]) (matchesAt d 8 [0x57, 0x45, 0x42, 0x50]) then webpSize d
  else if ← startsWith d 4 [0xFF, 0xD8] then jpegWalk d d.length 2
  else return none

/-- How many bytes of an image are looked at. -/
def imagePrefix : Nat := 256 * 1024

def imageSizeFromBase64 (b64 : List Char32) : Option (Option ImagePixelSize) := imageSize (decodePrefix b64 imagePrefix)

/-! ## The decoded bytes -/

/-- The alphabet of base64. -/
def base64Alphabet : List Char32 := List.range' 0x41 26 ++ List.range' 0x61 26 ++ List.range' 0x30 10 ++ [0x2B, 0x2F]

/-- The digit of a character, with `-` for `+` and `_` for `/`. -/
def urlSafeDigit (c : Char32) : Option Nat :=
  base64Alphabet.idxOf? (if c = 0x2D then 0x2B else if c = 0x5F then 0x2F else c)

set_option maxRecDepth 4096 in
theorem base64Value_eq (c : Char32) : base64Value c = urlSafeDigit c := by
  rcases Nat.lt_or_ge c 128 with hlt | hge
  · exact (by decide : ∀ c < 128, base64Value c = urlSafeDigit c) c hlt
  · have hnot {a b : Nat} (hb : b < 128) : ¬ (a ≤ c ∧ c ≤ b) := fun h => absurd (Nat.le_trans hge h.2) (by omega)
    have hne {a : Nat} (ha : a < 128) : c ≠ a := fun h => absurd (h ▸ hge) (by omega)
    have hmem : c ∉ base64Alphabet := fun hc =>
      absurd ((by decide : ∀ c ∈ base64Alphabet, c < 128) c hc) (Nat.not_lt.mpr hge)
    rw [base64Value, if_neg (hnot (by decide)), if_neg (hnot (by decide)), if_neg (hnot (by decide)),
      if_neg (not_or.mpr ⟨hne (by decide), hne (by decide)⟩), if_neg (not_or.mpr ⟨hne (by decide), hne (by decide)⟩),
      urlSafeDigit, if_neg (hne (by decide)), if_neg (hne (by decide))]
    exact (List.idxOf?_eq_none_iff.mpr hmem).symm

theorem base64Value_lt {c : Char32} {v : Nat} (h : base64Value c = some v) : v < 64 := by
  rw [base64Value_eq, urlSafeDigit] at h
  obtain ⟨hlt, -⟩ := List.idxOf?_eq_some_iff.mp h
  exact hlt

theorem toNat_pushDigit (acc : UInt32) {v : Nat} (hv : v < 64) :
    ((acc <<< 6) ||| .ofNat v).toNat = (acc.toNat * 64 + v) % 2 ^ 32 := by
  have hacc := acc.toNat_lt
  have hshift : (acc <<< 6).toNat = (acc.toNat % 2 ^ 26) <<< 6 := by
    rw [UInt32.toNat_shiftLeft, Nat.shiftLeft_eq, Nat.shiftLeft_eq]
    change acc.toNat * 64 % 2 ^ 32 = acc.toNat % 2 ^ 26 * 64
    omega
  have hdigit : (UInt32.ofNat v).toNat = v := UInt32.toNat_ofNat_of_lt' (show v < 2 ^ 32 by omega)
  rw [UInt32.toNat_or, hshift, hdigit, ← Nat.shiftLeft_add_eq_or_of_lt hv, Nat.shiftLeft_eq]
  omega

theorem pulledByte (acc : UInt32) {b : Nat} (hb : b < 32) :
    ((acc >>> .ofNat b) &&& 0xFF).toUInt8 = UInt8.ofNat (acc.toNat / 2 ^ b) := by
  apply UInt8.toNat_inj.mp
  rw [UInt32.toNat_toUInt8, UInt32.toNat_and, UInt32.toNat_shiftRight, UInt32.toNat_ofNat', UInt8.toNat_ofNat',
    Nat.mod_eq_of_lt (show b < 2 ^ 32 by omega), Nat.mod_eq_of_lt hb, Nat.shiftRight_eq_div_pow]
  change (acc.toNat / 2 ^ b &&& (2 ^ 8 - 1)) % 2 ^ 8 = _
  rw [Nat.and_two_pow_sub_one_eq_mod, Nat.mod_mod]

/-- A byte of the digits that have been read, of which only the last bits count. -/
theorem byte_of_rest {acc acc' v bits : Nat} (hbits : bits = 2 ∨ bits = 4 ∨ bits = 6) (hacc : acc' = (acc * 64 + v) % 2 ^ 32) :
    UInt8.ofNat (acc' / 2 ^ (bits - 2)) = UInt8.ofNat ((acc % 2 ^ bits * 64 + v) / 2 ^ (bits - 2)) ∧
      (acc % 2 ^ bits * 64 + v) % 2 ^ (bits - 2) = acc' % 2 ^ (bits - 2) := by
  have hbyte {m n : Nat} (h : m % 2 ^ 8 = n % 2 ^ 8) : UInt8.ofNat m = UInt8.ofNat n := by
    apply UInt8.toNat_inj.mp
    rw [UInt8.toNat_ofNat', UInt8.toNat_ofNat', h]
  rcases hbits with rfl | rfl | rfl
  · exact ⟨hbyte (by dsimp only [Nat.reduceSub, Nat.reducePow]; omega), by dsimp only [Nat.reduceSub, Nat.reducePow]; omega⟩
  · exact ⟨hbyte (by dsimp only [Nat.reduceSub, Nat.reducePow]; omega), by dsimp only [Nat.reduceSub, Nat.reducePow]; omega⟩
  · exact ⟨hbyte (by dsimp only [Nat.reduceSub, Nat.reducePow]; omega), by dsimp only [Nat.reduceSub, Nat.reducePow]; omega⟩

theorem decodeLoop_eq {limit : Nat} : ∀ (cs : List Char32) {acc : UInt32} {bits rest : Nat} {out : List UInt8},
    out.length < limit → bits = 0 ∨ bits = 2 ∨ bits = 4 ∨ bits = 6 → rest = acc.toNat % 2 ^ bits →
    decodeLoop limit cs acc bits out = (out ++ Base64.pull rest bits (Base64.digits base64Value cs)).take limit
  | [], _, _, _, out, hout, _, _ => by
    rw [decodeLoop, Base64.digits, Base64.pull, List.append_nil, List.take_of_length_le (by omega)]
  | c :: cs, acc, bits, rest, out, hout, hbits, hrest => by
    rw [decodeLoop, Base64.digits]
    cases hc : base64Value c with
    | none =>
      dsimp only
      rw [Base64.pull, List.append_nil, List.take_of_length_le (by omega)]
    | some v =>
      have hv := base64Value_lt hc
      have hacc := toNat_pushDigit acc hv
      dsimp only
      rw [Base64.pull, hrest]
      generalize (acc <<< 6) ||| UInt32.ofNat v = acc' at hacc ⊢
      by_cases hbyte : bits + 6 ≥ 8
      · have hbits : bits = 2 ∨ bits = 4 ∨ bits = 6 := by omega
        obtain ⟨hpulled, hleft⟩ := byte_of_rest hbits hacc
        rw [if_pos hbyte, if_pos hbyte, show bits + 6 - 8 = bits - 2 by omega, pulledByte acc' (by omega), hpulled,
          List.append_cons out _ (Base64.pull _ _ _)]
        split_ifs with hfull
        · rw [List.length_append, List.length_singleton] at hfull
          rw [List.take_append_of_le_length (by rw [List.length_append, List.length_singleton]; exact hfull),
            List.take_of_length_le (by rw [List.length_append, List.length_singleton]; omega)]
        · exact decodeLoop_eq cs (Nat.lt_of_not_le hfull) (by omega) hleft
      · obtain rfl : bits = 0 := by omega
        rw [if_neg hbyte, if_neg hbyte]
        refine decodeLoop_eq cs hout (by omega) ?_
        rw [hacc, Nat.pow_zero, Nat.mod_one, Nat.zero_mul, Nat.zero_add]
        omega
/-- The bytes of the longest prefix of digits, up to the limit. -/
theorem decodePrefix_eq (b64 : List Char32) {limit : Nat} (h : 0 < limit) :
    decodePrefix b64 limit = (Base64.bytes (Base64.digits base64Value b64)).take limit := by
  rw [decodePrefix, decodeLoop_eq b64 h (.inl rfl) rfl, List.nil_append, ← Base64.pull_eq_bytes]
  rfl

/-! ## Reads inside the bytes -/

section Reads

variable {d : List UInt8} {i : Nat}

theorem byte_some (h : i < d.length) : ∃ b, d[i]? = some b := ⟨_, List.getElem?_eq_getElem h⟩

theorem be16_some (h : i + 2 ≤ d.length) : ∃ v, be16 d i = some v := by
  obtain ⟨a, ha⟩ := byte_some (show i < d.length by omega)
  obtain ⟨b, hb⟩ := byte_some (show i + 1 < d.length by omega)
  exact ⟨(a.toUInt32 <<< 8) ||| b.toUInt32, by rw [be16, ha, hb]; rfl⟩

theorem be32_some (h : i + 4 ≤ d.length) : ∃ v, be32 d i = some v := by
  obtain ⟨a, ha⟩ := be16_some (show i + 2 ≤ d.length by omega)
  obtain ⟨b, hb⟩ := be16_some (show i + 2 + 2 ≤ d.length by omega)
  exact ⟨(a <<< 16) ||| b, by rw [be32, ha, hb]; rfl⟩

theorem le16_some (h : i + 2 ≤ d.length) : ∃ v, le16 d i = some v := by
  obtain ⟨a, ha⟩ := byte_some (show i < d.length by omega)
  obtain ⟨b, hb⟩ := byte_some (show i + 1 < d.length by omega)
  exact ⟨a.toUInt32 ||| (b.toUInt32 <<< 8), by rw [le16, ha, hb]; rfl⟩

theorem le24_some (h : i + 3 ≤ d.length) : ∃ v, le24 d i = some v := by
  obtain ⟨a, ha⟩ := le16_some (show i + 2 ≤ d.length by omega)
  obtain ⟨b, hb⟩ := byte_some (show i + 2 < d.length by omega)
  exact ⟨a ||| (b.toUInt32 <<< 16), by rw [le24, ha, hb]; rfl⟩

theorem le32_some (h : i + 4 ≤ d.length) : ∃ v, le32 d i = some v := by
  obtain ⟨a, ha⟩ := le16_some (show i + 2 ≤ d.length by omega)
  obtain ⟨b, hb⟩ := le16_some (show i + 2 + 2 ≤ d.length by omega)
  exact ⟨a ||| (b <<< 16), by rw [le32, ha, hb]; rfl⟩

theorem matchesAt_some : ∀ {bs : List UInt8} {i : Nat}, i + bs.length ≤ d.length → ∃ m, matchesAt d i bs = some m
  | [], _, _ => ⟨true, rfl⟩
  | b :: bs, i, h => by
    rw [List.length_cons] at h
    obtain ⟨x, hx⟩ := byte_some (show i < d.length by omega)
    obtain ⟨m, hm⟩ := matchesAt_some (show i + 1 + bs.length ≤ d.length by omega)
    rw [matchesAt, hx, Option.bind_some]
    split
    · exact ⟨m, hm⟩
    · exact ⟨false, rfl⟩

theorem startsWith_some {least : Nat} {bs : List UInt8} (h : bs.length ≤ least) :
    ∃ m, startsWith d least bs = some m ∧ (m = true → least ≤ d.length) := by
  unfold startsWith
  split_ifs with hleast
  · obtain ⟨m, hm⟩ := matchesAt_some (show 0 + bs.length ≤ d.length by omega)
    exact ⟨m, hm, fun _ => hleast⟩
  · exact ⟨false, rfl, nofun⟩

theorem bothMatch_some {a b : Option Bool} {x : Bool} (ha : a = some x) (hb : x = true → ∃ y, b = some y) :
    ∃ m, bothMatch a b = some m ∧ (m = true → x = true) := by
  rw [bothMatch, ha, Option.bind_some]
  cases x with
  | true =>
    obtain ⟨y, hy⟩ := hb rfl
    exact ⟨y, hy, fun _ => rfl⟩
  | false => exact ⟨false, rfl, nofun⟩

/-! ## The detection -/

theorem pngSize_some (h : 24 ≤ d.length) : ∃ r, pngSize d = some r := by
  obtain ⟨w, hw⟩ := be32_some (show 16 + 4 ≤ d.length by omega)
  obtain ⟨v, hv⟩ := be32_some (show 20 + 4 ≤ d.length by omega)
  exact ⟨some ⟨w, v⟩, by rw [pngSize, hw, hv]; rfl⟩

theorem gifSize_some (h : 10 ≤ d.length) : ∃ r, gifSize d = some r := by
  obtain ⟨w, hw⟩ := le16_some (show 6 + 2 ≤ d.length by omega)
  obtain ⟨v, hv⟩ := le16_some (show 8 + 2 ≤ d.length by omega)
  exact ⟨some ⟨w, v⟩, by rw [gifSize, hw, hv]; rfl⟩

theorem bmpSize_some (h : 26 ≤ d.length) : ∃ r, bmpSize d = some r := by
  obtain ⟨v, hv⟩ := le32_some (show 22 + 4 ≤ d.length by omega)
  obtain ⟨w, hw⟩ := le32_some (show 18 + 4 ≤ d.length by omega)
  exact ⟨some ⟨w, if v ≥ 0x80000000 then 0 - v else v⟩, by rw [bmpSize, hv, hw]; rfl⟩

theorem webpSize_some (h : 30 ≤ d.length) : ∃ r, webpSize d = some r := by
  have hmatch {i : Nat} {bs : List UInt8} (hbs : i + bs.length ≤ 30) : ∃ m, matchesAt d i bs = some m :=
    matchesAt_some (Nat.le_trans hbs h)
  obtain ⟨x, hx⟩ := hmatch (show 12 + [(0x56 : UInt8), 0x50, 0x38, 0x58].length ≤ 30 by decide)
  obtain ⟨l, hl⟩ := hmatch (show 12 + [(0x56 : UInt8), 0x50, 0x38, 0x4C].length ≤ 30 by decide)
  obtain ⟨l', hl', -⟩ := bothMatch_some hl fun _ => hmatch (show 20 + [(0x2F : UInt8)].length ≤ 30 by decide)
  obtain ⟨b, hb⟩ := hmatch (show 12 + [(0x56 : UInt8), 0x50, 0x38, 0x20].length ≤ 30 by decide)
  obtain ⟨b', hb', -⟩ := bothMatch_some hb fun _ => hmatch (show 23 + [(0x9D : UInt8), 0x01, 0x2A].length ≤ 30 by decide)
  obtain ⟨w, hw⟩ := le24_some (show 24 + 3 ≤ d.length by omega)
  obtain ⟨v, hv⟩ := le24_some (show 27 + 3 ≤ d.length by omega)
  obtain ⟨n, hn⟩ := le32_some (show 21 + 4 ≤ d.length by omega)
  obtain ⟨p, hp⟩ := le16_some (show 26 + 2 ≤ d.length by omega)
  obtain ⟨q, hq⟩ := le16_some (show 28 + 2 ≤ d.length by omega)
  rw [webpSize, hx, hl', hb', hw, hv, hn, hp, hq]
  cases x <;> cases l' <;> cases b' <;> exact ⟨_, rfl⟩

/-- A step of the walk reads inside the bytes, and advances. -/
theorem jpegStep_reads (h : i + 9 ≤ d.length) : ∃ r, jpegStep d i = some r ∧ ∀ j, r = .next j → i < j := by
  obtain ⟨b, hb⟩ := byte_some (show i < d.length by omega)
  obtain ⟨m, hm⟩ := byte_some (show i + 1 < d.length by omega)
  obtain ⟨w, hw⟩ := be16_some (show i + 7 + 2 ≤ d.length by omega)
  obtain ⟨v, hv⟩ := be16_some (show i + 5 + 2 ≤ d.length by omega)
  obtain ⟨n, hn⟩ := be16_some (show i + 2 + 2 ≤ d.length by omega)
  have hnext {k : Nat} (hk : i < k) : ∀ j, JpegStep.next k = .next j → i < j := fun j hj => by
    injection hj with hj
    omega
  rw [jpegStep, hb, hm, hw, hv, hn]
  dsimp only [Option.bind_eq_bind, Option.bind_some, pure]
  split_ifs
  · exact ⟨_, rfl, nofun⟩
  · exact ⟨_, rfl, hnext (by omega)⟩
  · exact ⟨_, rfl, nofun⟩
  · exact ⟨_, rfl, hnext (by omega)⟩
  · exact ⟨_, rfl, hnext (by omega)⟩

/-- The walk ends, when it may take as many turns as there are bytes. -/
theorem jpegWalk_some : ∀ {n i : Nat}, d.length ≤ i + n → ∃ r, jpegWalk d n i = some r
  | 0, i, h => by
    rw [jpegWalk, if_neg (by omega)]
    exact ⟨none, rfl⟩
  | n + 1, i, h => by
    unfold jpegWalk
    split_ifs with hi
    · obtain ⟨r, hr, hnext⟩ := jpegStep_reads hi
      dsimp only
      rw [hr, Option.bind_some]
      cases r with
      | done size => exact ⟨size, rfl⟩
      | next j =>
        have := hnext j rfl
        exact jpegWalk_some (by omega)
    · exact ⟨none, rfl⟩

/-- The detection ends, and every index is inside the bytes. -/
theorem imageSize_some (d : List UInt8) : ∃ r, imageSize d = some r := by
  obtain ⟨p, hp, hpng⟩ := @startsWith_some d 24 [0x89, 0x50, 0x4E, 0x47] (by decide)
  obtain ⟨g, hg, hgif⟩ := @startsWith_some d 10 [0x47, 0x49, 0x46] (by decide)
  obtain ⟨b, hb, hbmp⟩ := @startsWith_some d 26 [0x42, 0x4D] (by decide)
  obtain ⟨r, hr, hriff⟩ := @startsWith_some d 30 [0x52, 0x49, 0x46, 0x46] (by decide)
  obtain ⟨w, hw, hwebp⟩ := bothMatch_some hr fun h =>
    @matchesAt_some d [0x57, 0x45, 0x42, 0x50] 8 (Nat.le_trans (by decide) (hriff h))
  obtain ⟨j, hj, -⟩ := @startsWith_some d 4 [0xFF, 0xD8] (by decide)
  obtain ⟨walk, hwalk⟩ := jpegWalk_some (show d.length ≤ 2 + d.length by omega)
  rw [imageSize, hp, hg, hb, hw, hj, hwalk]
  dsimp only [Option.bind_eq_bind, Option.bind_some, pure]
  split_ifs with h1 h2 h3 h4 h5
  · exact pngSize_some (hpng h1)
  · exact gifSize_some (hgif h2)
  · exact bmpSize_some (hbmp h3)
  · exact webpSize_some (hriff (hwebp h4))
  · exact ⟨walk, rfl⟩
  · exact ⟨none, rfl⟩

end Reads

/-! ## Well-formed JPEG -/

/-- What may stand in front of the first frame of a JPEG. -/
inductive JpegItem
  | fill
  | marker (code : UInt8)
  | segment (code : UInt8) (payload : List UInt8)

/-- The markers of a start of frame. -/
def frameCodes : List UInt8 := [0xC0, 0xC1, 0xC2, 0xC3, 0xC5, 0xC6, 0xC7, 0xC9, 0xCA, 0xCB, 0xCD, 0xCE, 0xCF]

/-- The markers that stand alone: TEM, RSTn, SOI and EOI. -/
def loneCodes : List UInt8 := [0x01, 0xD0, 0xD1, 0xD2, 0xD3, 0xD4, 0xD5, 0xD6, 0xD7, 0xD8, 0xD9]

namespace JpegItem

/-- The two bytes of a length, which counts itself. -/
def bytes : JpegItem → List UInt8
  | fill => [0xFF]
  | marker code => [0xFF, code]
  | segment code payload =>
    0xFF :: code :: .ofNat ((payload.length + 2) / 256) :: .ofNat (payload.length + 2) :: payload

/-- No item is the end of the image, a frame or something that is no marker. -/
def WellFormed : JpegItem → Prop
  | fill => True
  | marker code => code ∈ loneCodes ∧ code ≠ 0xD9
  | segment code payload => code ∉ loneCodes ∧ code ∉ frameCodes ∧ code ≠ 0 ∧ code ≠ 0xFF ∧ payload.length + 2 < 0x10000

end JpegItem

/-- The header of a start of frame. -/
structure JpegFrame where
  code : UInt8
  lengthHigh : UInt8
  lengthLow : UInt8
  precision : UInt8
  heightHigh : UInt8
  heightLow : UInt8
  widthHigh : UInt8
  widthLow : UInt8
  isFrame : code ∈ frameCodes

namespace JpegFrame

def bytes (f : JpegFrame) : List UInt8 :=
  [0xFF, f.code, f.lengthHigh, f.lengthLow, f.precision, f.heightHigh, f.heightLow, f.widthHigh, f.widthLow]

def size (f : JpegFrame) : ImagePixelSize where
  width := .ofNat (f.widthHigh.toNat * 256 + f.widthLow.toNat)
  height := .ofNat (f.heightHigh.toNat * 256 + f.heightLow.toNat)

end JpegFrame

set_option maxRecDepth 8192 in
theorem isSof_eq (code : UInt8) : isSof code = decide (code ∈ frameCodes) := by
  have h : ∀ n < 256, isSof (.ofNat n) = decide (UInt8.ofNat n ∈ frameCodes) := by decide
  have := h code.toNat code.toNat_lt
  rwa [UInt8.ofNat_toNat] at this

set_option maxRecDepth 8192 in
theorem isStandalone_eq (code : UInt8) : isStandalone code = decide (code ∈ loneCodes ∧ code ≠ 0xD9) := by
  have h : ∀ n < 256, isStandalone (.ofNat n) = decide (UInt8.ofNat n ∈ loneCodes ∧ UInt8.ofNat n ≠ 0xD9) := by decide
  have := h code.toNat code.toNat_lt
  rwa [UInt8.ofNat_toNat] at this

section Walk

variable {d rest : List UInt8} {i : Nat} {a b : UInt8}

theorem be16_eq (ha : d[i]? = some a) (hb : d[i + 1]? = some b) : be16 d i = some (.ofNat (a.toNat * 256 + b.toNat)) := by
  rw [be16, ha, hb]
  refine congrArg some (UInt32.toNat_inj.mp ?_)
  have ha' := a.toNat_lt
  have hb' : b.toNat < 2 ^ 8 := b.toNat_lt
  rw [UInt32.toNat_or, UInt32.toNat_shiftLeft, UInt8.toNat_toUInt32, UInt8.toNat_toUInt32,
    UInt32.toNat_ofNat_of_lt' (show a.toNat * 256 + b.toNat < 2 ^ 32 by omega),
    Nat.mod_eq_of_lt (by rw [Nat.shiftLeft_eq]; change a.toNat * 256 < _; omega)]
  exact (Nat.shiftLeft_add_eq_or_of_lt hb' _).symm.trans (by rw [Nat.shiftLeft_eq])

theorem getElem?_of_drop {s : List UInt8} (h : d.drop i = s) (k : Nat) : d[i + k]? = s[k]? := by
  rw [← h, List.getElem?_drop]

theorem length_of_drop {s : List UInt8} (h : d.drop i = s) (hs : s ≠ []) : d.length = i + s.length := by
  have hpos := List.length_pos_iff.mpr hs
  rw [← h, List.length_drop] at hpos ⊢
  omega

/-- A frame ends the walk. -/
theorem jpegStep_frame {f : JpegFrame} (h : d.drop i = f.bytes ++ rest) : jpegStep d i = some (.done (some f.size)) := by
  have hread (k : Nat) := getElem?_of_drop h k
  have hw : be16 d (i + 7) = some f.size.width := be16_eq (hread 7) (hread 8)
  have hh : be16 d (i + 5) = some f.size.height := be16_eq (hread 5) (hread 6)
  have hff : ¬ f.code = 0xFF := fun hc => absurd (hc ▸ f.isFrame) (by decide)
  have hsof : isSof f.code = true := by rw [isSof_eq, decide_eq_true f.isFrame]
  have h0 : d[i]? = some 0xFF := hread 0
  have h1 : d[i + 1]? = some f.code := hread 1
  rw [jpegStep, h0, h1]
  dsimp only [Option.bind_eq_bind, Option.bind_some, pure]
  rw [if_neg (not_not.mpr rfl), if_neg hff, if_pos hsof, hw, hh]
  rfl

/-- An item is one turn of the walk, and the next bytes are those behind it. -/
theorem jpegStep_item {item : JpegItem} (hitem : item.WellFormed) (h : d.drop i = item.bytes ++ 0xFF :: rest) :
    jpegStep d i = some (.next (i + item.bytes.length)) := by
  have hread (k : Nat) := getElem?_of_drop h k
  cases item with
  | fill =>
    have h0 : d[i]? = some 0xFF := hread 0
    have h1 : d[i + 1]? = some 0xFF := hread 1
    rw [jpegStep, h0, h1]
    dsimp only [Option.bind_eq_bind, Option.bind_some, pure]
    rw [if_neg (not_not.mpr rfl), if_pos rfl]
    rfl
  | marker code =>
    have h0 : d[i]? = some 0xFF := hread 0
    have h1 : d[i + 1]? = some code := hread 1
    have hff : ¬ code = 0xFF := fun hc => absurd (hc ▸ hitem.1) (by decide)
    have hsof : ¬ isSof code = true := by
      rw [isSof_eq, decide_eq_true_iff]
      exact fun hc => absurd hitem.1 ((by simp [frameCodes, loneCodes] : ∀ c ∈ frameCodes, c ∉ loneCodes) code hc)
    rw [jpegStep, h0, h1]
    dsimp only [Option.bind_eq_bind, Option.bind_some, pure]
    rw [if_neg (not_not.mpr rfl), if_neg hff, if_neg hsof, 
      if_pos ((isStandalone_eq code).trans (decide_eq_true (show code ∈ loneCodes ∧ code ≠ 0xD9 from hitem)))]
    rfl
  | segment code payload =>
    obtain ⟨hlone, hframe, -, hff, hlength⟩ := hitem
    have h0 : d[i]? = some 0xFF := hread 0
    have h1 : d[i + 1]? = some code := hread 1
    have hlen := be16_eq (hread 2) (hread 3)
    have hsof : ¬ isSof code = true := by
      rw [isSof_eq, decide_eq_true_iff]
      exact hframe
    have hstandalone : ¬ isStandalone code = true := by
      rw [isStandalone_eq, decide_eq_true_iff]
      exact fun hc => hlone hc.1
    rw [jpegStep, h0, h1]
    dsimp only [Option.bind_eq_bind, Option.bind_some, pure]
    rw [if_neg (not_not.mpr rfl), if_neg hff, if_neg hsof, if_neg hstandalone, hlen, Option.bind_some]
    have hhigh : (UInt8.ofNat ((payload.length + 2) / 256)).toNat = (payload.length + 2) / 256 :=
      UInt8.toNat_ofNat_of_lt' (show (payload.length + 2) / 256 < 256 by omega)
    have hlow : (UInt8.ofNat (payload.length + 2)).toNat = (payload.length + 2) % 256 := UInt8.toNat_ofNat'
    have hsum : (payload.length + 2) / 256 * 256 + (payload.length + 2) % 256 = payload.length + 2 := by omega
    rw [hhigh, hlow, hsum, UInt32.toNat_ofNat_of_lt' (show payload.length + 2 < 2 ^ 32 by omega)]
    change some (JpegStep.next (i + 2 + (payload.length + 2))) = some (.next (i + (payload.length + 4)))
    rw [show i + 2 + (payload.length + 2) = i + (payload.length + 4) by omega]

theorem JpegItem.bytes_eq (item : JpegItem) : ∃ bs, item.bytes = 0xFF :: bs := by
  cases item <;> exact ⟨_, rfl⟩

/-- Behind well-formed items, the walk finds the frame. -/
theorem jpegWalk_frame {f : JpegFrame} : ∀ {items : List JpegItem} {n i : Nat}, (∀ item ∈ items, item.WellFormed) →
    items.length < n → d.drop i = items.flatMap JpegItem.bytes ++ (f.bytes ++ rest) →
    jpegWalk d n i = some (some f.size)
  | [], n + 1, i, _, _, h => by
    have hlength : d.length = i + (9 + rest.length) := by
      rw [length_of_drop h (by simp [JpegFrame.bytes]), List.flatMap_nil, List.nil_append, List.length_append]
      rfl
    rw [jpegWalk, if_pos (by omega)]
    rw [jpegStep_frame h, Option.bind_some]
  | item :: items, n + 1, i, hitems, hn, h => by
    obtain ⟨hitem, hrest⟩ := List.forall_mem_cons.mp hitems
    rw [List.length_cons] at hn
    rw [List.flatMap_cons, List.append_assoc] at h
    have hlength : d.length = i + (item.bytes.length + ((items.flatMap JpegItem.bytes).length + (9 + rest.length))) := by
      rw [length_of_drop h (by simp [JpegFrame.bytes]), List.length_append, List.length_append, List.length_append]
      rfl
    have hnext : ∃ bs, items.flatMap JpegItem.bytes ++ (f.bytes ++ rest) = 0xFF :: bs := by
      cases items with
      | nil => exact ⟨_, rfl⟩
      | cons next items =>
        obtain ⟨bs, hbs⟩ := next.bytes_eq
        rw [List.flatMap_cons, hbs]
        exact ⟨_, rfl⟩
    obtain ⟨bs, hbs⟩ := hnext
    have hdrop : d.drop (i + item.bytes.length) = items.flatMap JpegItem.bytes ++ (f.bytes ++ rest) := by
      rw [← List.drop_drop, h, List.drop_left]
    rw [jpegWalk, if_pos (by omega)]
    rw [jpegStep_item hitem (hbs ▸ h), Option.bind_some]
    exact jpegWalk_frame hrest (by omega) hdrop

/-- A JPEG up to its first frame: SOI, items and the header of the frame. -/
structure IsJpeg (d : List UInt8) (items : List JpegItem) (f : JpegFrame) : Prop where
  wellFormed : ∀ item ∈ items, item.WellFormed
  bytes : 0xFF :: 0xD8 :: (items.flatMap JpegItem.bytes ++ f.bytes) <+: d

theorem startsWith_false {x b : UInt8} {bs : List UInt8} (h : d[0]? = some x) (hne : x ≠ b) (least : Nat) :
    startsWith d least (b :: bs) = some false := by
  unfold startsWith
  split_ifs
  · rw [matchesAt, h, Option.bind_some, if_neg hne]
  · rfl

theorem length_le_bytes : ∀ items : List JpegItem, items.length ≤ (items.flatMap JpegItem.bytes).length
  | [] => Nat.le_refl 0
  | item :: items => by
    obtain ⟨bs, hbs⟩ := item.bytes_eq
    have hrest := length_le_bytes items
    rw [List.flatMap_cons, List.length_cons, List.length_append, hbs, List.length_cons]
    omega

/-- The size of a JPEG is that of its first frame. -/
theorem IsJpeg.imageSize {items : List JpegItem} {f : JpegFrame} (h : IsJpeg d items f) : imageSize d = some (some f.size) := by
  obtain ⟨rest, hrest⟩ := h.bytes
  have h0 : d[0]? = some 0xFF := by rw [← hrest]; rfl
  have h1 : d[1]? = some 0xD8 := by rw [← hrest]; rfl
  have hdrop : d.drop 2 = items.flatMap JpegItem.bytes ++ (f.bytes ++ rest) := by
    rw [← hrest, ← List.append_assoc]
    rfl
  have hcount := length_le_bytes items
  have hlength : d.length = 2 + ((items.flatMap JpegItem.bytes).length + (9 + rest.length)) := by
    rw [length_of_drop hdrop (by simp [JpegFrame.bytes]), List.length_append, List.length_append]
    rfl
  have hjpeg : startsWith d 4 [0xFF, 0xD8] = some true := by
    rw [startsWith, if_pos (by omega), matchesAt, h0, Option.bind_some, if_pos rfl, matchesAt, h1, Option.bind_some, if_pos rfl]
    rfl
  have hother {b : UInt8} {bs : List UInt8} (hb : (0xFF : UInt8) ≠ b) (least : Nat) :
      startsWith d least (b :: bs) = some false := startsWith_false h0 hb least
  rw [Corehost.imageSize, hother (by decide), hother (by decide), hother (by decide), hother (by decide), hjpeg,
    jpegWalk_frame h.wellFormed (by omega) hdrop]
  rfl

end Walk

/-- For every payload: the detection ends with every index inside the decoded
bytes, which are the first bytes of the longest prefix of base64 digits (with `-`
for `+` and `_` for `/`); each step of the JPEG walk advances; and where the
decoded bytes are a JPEG up to its first frame, the size is that of the frame. -/
theorem image_size_exact (b64 : List Char32) :
    decodePrefix b64 imagePrefix = (Base64.bytes (Base64.digits urlSafeDigit b64)).take imagePrefix ∧
      (∃ r, imageSizeFromBase64 b64 = some r) ∧
      (∀ d i, i + 9 ≤ d.length → ∃ r, jpegStep d i = some r ∧ ∀ j, r = .next j → i < j) ∧
      ∀ items f, IsJpeg (decodePrefix b64 imagePrefix) items f → imageSizeFromBase64 b64 = some (some f.size) := by
  refine ⟨?_, imageSize_some _, fun _ _ => jpegStep_reads, fun _ _ h => h.imageSize⟩
  rw [decodePrefix_eq b64 (by decide), funext base64Value_eq]

set_option maxRecDepth 4096 in
/-- SOI, a fill byte and a frame of 32 by 16 pixels. -/
theorem image_size_exact_jpeg :
    imageSizeFromBase64 [0x2F, 0x39, 0x6A, 0x2F, 0x2F, 0x38, 0x41, 0x41, 0x45, 0x51, 0x67, 0x41, 0x45, 0x41, 0x41, 0x67] =
      some (some ⟨32, 16⟩) :=
  (image_size_exact _).2.2.2 [.fill] ⟨0xC0, 0, 0x11, 8, 0, 16, 0, 32, by decide⟩
    ⟨by simp [JpegItem.WellFormed], by decide⟩

/-- `AA-A`: the `-` is not in the alphabet of base64, and it is decoded. -/
theorem decodePrefix_urlSafe :
    decodePrefix [0x41, 0x41, 0x2D, 0x41] imagePrefix ≠
      (Base64.bytes (Base64.digits base64Alphabet.idxOf? [0x41, 0x41, 0x2D, 0x41])).take imagePrefix := by
  decide

end Corehost
