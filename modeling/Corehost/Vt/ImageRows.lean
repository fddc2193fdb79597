import Corehost.Vt.ImageSize
import Corehost.Vt.Send
import Mathlib.Algebra.Order.Floor.Div

/-!
# The rows of an inline image

The model of `iterm2_inline_image_rows` (`inline_image.hpp`): how many rows an
image of iTerm2 takes, from its arguments, its size and the size of a cell.

* `exactRows`: the value in unbounded integers;
* `Fits`: the bounds on the inputs, and `NoWrap`: no operation on `uint32_t`
  loses something;
* `image_rows_iff`: the rows are exact and nothing wraps exactly when the inputs
  fit.
-/

namespace Corehost

open Lib

/-! ## The arguments -/

/-- `image_dim::kind`. -/
inductive ImageDimKind
  | automatic | cells | pixels | percent
deriving DecidableEq, Repr

/-- `image_dim`. -/
structure ImageDim where
  kind : ImageDimKind := .automatic
  n : UInt32 := 0
deriving DecidableEq, Repr

/-- The loop of `image_dim::parse`; nothing for a text that is no number, or too long. -/
def dimDigits : List Char32 → UInt32 → Option UInt32
  | [], n => some n
  | c :: cs, n => if c < 0x30 ∨ c > 0x39 ∨ n > 100000 then none else dimDigits cs (n * 10 + .ofNat (c - 0x30))

def ImageDim.parse (v : List Char32) : ImageDim :=
  if v = [] ∨ v = chars ['a', 'u', 't', 'o'] then {}
  else
    let (kind, v) : ImageDimKind × List Char32 :=
      if chars ['p', 'x'] <:+ v then (.pixels, v.dropLast.dropLast)
      else if chars ['%'] <:+ v then (.percent, v.dropLast)
      else (.cells, v)
    if v = [] then {}
    else match dimDigits v 0 with
      | some n => ⟨kind, n⟩
      | none => {}

/-- `iterm2_file`. -/
structure Iterm2File where
  width : ImageDim := {}
  height : ImageDim := {}
  payload : List Char32 := []
deriving DecidableEq, Repr

/-- One argument, with an `=` or without. -/
def Iterm2File.argument (f : Iterm2File) (kv : List Char32) : Iterm2File :=
  if 0x3D ∉ kv then f
  else
    let key := kv.takeWhile (· ≠ 0x3D)
    let val := kv.drop (key.length + 1)
    if key = chars ['w', 'i', 'd', 't', 'h'] then { f with width := .parse val }
    else if key = chars ['h', 'e', 'i', 'g', 'h', 't'] then { f with height := .parse val }
    else f

def iterm2Prefix : List Char32 := chars ['\x1b', ']', '1', '3', '3', '7', ';', 'F', 'i', 'l', 'e', '=']

/-- `parse_iterm2_file`. -/
def parseIterm2File (raw : List Char32) : Option Iterm2File :=
  if iterm2Prefix <+: raw then
    let rest := raw.drop iterm2Prefix.length
    if 0x3A ∉ rest then none
    else
      let args := rest.takeWhile (· ≠ 0x3A)
      some ((args.splitOn 0x3B).foldl .argument { payload := rest.drop (args.length + 1) })
  else none

/-! ## The rows -/

/-- What is computed in `double`: the cells for a number of pixels, and the rows
for a number of columns and an image. -/
structure ImageRounding where
  pixelCells : UInt32 → UInt32 → UInt32
  scaledRows : UInt32 → ImagePixelSize → UInt32 → UInt32 → UInt32

/-- `image_dim::cells`. -/
def ImageDim.cells (d : ImageDim) (rounding : ImageRounding) (cellPx termCols native : UInt32) (isWidth : Bool) :
    Option UInt32 :=
  match d.kind with
  | .automatic => none
  | .cells => some d.n
  | .pixels => some (max 1 (rounding.pixelCells d.n cellPx))
  | .percent => some (max 1 (if isWidth then termCols * d.n / 100 else native * d.n / 100))

/-- `(px + cell - 1) / cell`. -/
def nativeCells (px cell : UInt32) : UInt32 := (px + cell - 1) / cell

/-- `iterm2_inline_image_rows` for the size of the image in pixels. -/
def imageBoxRows (rounding : ImageRounding) (f : Iterm2File) (px : ImagePixelSize) (cellW cellH termCols : UInt32) : Nat :=
  let boxCols := f.width.cells rounding cellW termCols (nativeCells px.width cellW) true
  let boxRows := f.height.cells rounding cellH termCols (nativeCells px.height cellH) false
  let rows :=
    match boxRows, boxCols with
    | some rows, _ => rows
    | none, some cols => rounding.scaledRows cols px cellW cellH
    | none, none => nativeCells px.height cellH
  let rows := max rows 1
  if rows ≤ 1000 then rows.toNat else 0

/-- `iterm2_inline_image_rows`; nothing for a read outside the image. -/
def iterm2InlineImageRows (rounding : ImageRounding) (raw : List Char32) (cellW cellH termCols : UInt32) : Option Nat :=
  match parseIterm2File raw with
  | none => some 0
  | some f =>
    if f.height.kind = .cells then some (if f.height.n ≤ 1000 then (max f.height.n 1).toNat else 0)
    else if cellW = 0 ∨ cellH = 0 then some 0
    else (imageSizeFromBase64 f.payload).map fun
      | none => 0
      | some px => if px.width = 0 ∨ px.height = 0 then 0 else imageBoxRows rounding f px cellW cellH termCols

/-! ## In unbounded integers -/

/-- The size of the image, if there is one and the terminal has told its cells. -/
def knownPixels (f : Iterm2File) (cellW cellH : UInt32) : Option ImagePixelSize :=
  if cellW = 0 ∨ cellH = 0 then none
  else (imageSizeFromBase64 f.payload).join.filter fun px => px.width ≠ 0 ∧ px.height ≠ 0

/-- At least one row, and none when there are more than 1000. -/
def limitedRows (v : Nat) : Nat := if max v 1 ≤ 1000 then max v 1 else 0

/-- The rows in unbounded integers. -/
def exactRows (f : Iterm2File) (cellW cellH : UInt32) : Nat :=
  let native (px : ImagePixelSize) : Nat := px.height.toNat ⌈/⌉ cellH.toNat
  match f.height.kind with
  | .cells => limitedRows f.height.n.toNat
  | .percent => ((knownPixels f cellW cellH).map fun px => limitedRows (native px * f.height.n.toNat / 100)).getD 0
  | _ => ((knownPixels f cellW cellH).map fun px => limitedRows (native px)).getD 0

/-- The height is in cells, in percent, or automatic with an automatic width. -/
def Iterm2File.IntegerOnly (f : Iterm2File) : Prop :=
  f.height.kind = .cells ∨ f.height.kind = .percent ∨ f.height.kind = .automatic ∧ f.width.kind = .automatic

/-- The bounds on the inputs. -/
structure Fits (f : Iterm2File) (px : ImagePixelSize) (cellW cellH termCols : UInt32) : Prop where
  width : px.width.toNat + cellW.toNat < 2 ^ 32
  height : px.height.toNat + cellH.toNat < 2 ^ 32
  cols : f.width.kind = .percent → termCols.toNat * f.width.n.toNat < 2 ^ 32
  rows : f.height.kind = .percent → (px.height.toNat ⌈/⌉ cellH.toNat) * f.height.n.toNat < 2 ^ 32

/-- No operation on `uint32_t` loses something. -/
structure NoWrap (f : Iterm2File) (px : ImagePixelSize) (cellW cellH termCols : UInt32) : Prop where
  width : (px.width + cellW).toNat = px.width.toNat + cellW.toNat
  height : (px.height + cellH).toNat = px.height.toNat + cellH.toNat
  cols : f.width.kind = .percent → (termCols * f.width.n).toNat = termCols.toNat * f.width.n.toNat
  rows : f.height.kind = .percent →
    (nativeCells px.height cellH * f.height.n).toNat = (nativeCells px.height cellH).toNat * f.height.n.toNat

variable {rounding : ImageRounding} {raw : List Char32} {f : Iterm2File} {px : ImagePixelSize}
  {a b cellW cellH termCols : UInt32}

theorem toNat_add_iff : (a + b).toNat = a.toNat + b.toNat ↔ a.toNat + b.toNat < 2 ^ 32 := by
  rw [UInt32.toNat_add]
  omega

theorem toNat_mul_iff : (a * b).toNat = a.toNat * b.toNat ↔ a.toNat * b.toNat < 2 ^ 32 := by
  rw [UInt32.toNat_mul]
  exact Nat.mod_eq_iff_lt (by decide)

theorem toNat_nativeCells (hcell : b ≠ 0) (h : a.toNat + b.toNat < 2 ^ 32) :
    (nativeCells a b).toNat = a.toNat ⌈/⌉ b.toNat := by
  have hpos : 0 < b.toNat := Nat.pos_of_ne_zero fun h0 => hcell (UInt32.toNat_inj.mp h0)
  have hsum := toNat_add_iff.mpr h
  rw [nativeCells, UInt32.toNat_div, UInt32.toNat_sub_of_le _ _ (UInt32.le_iff_toNat_le.mpr (by rw [hsum]; change 1 ≤ _; omega)),
    hsum, Nat.ceilDiv_eq_add_pred_div]
  rfl

theorem toNat_max (a b : UInt32) : (max a b).toNat = max a.toNat b.toNat := by
  change (if a ≤ b then b else a).toNat = if a.toNat ≤ b.toNat then b.toNat else a.toNat
  rw [apply_ite UInt32.toNat]
  exact if_congr UInt32.le_iff_toNat_le rfl rfl

/-- The check against 1000 in `uint32_t`. -/
theorem toNat_limited (a : UInt32) : (if max a 1 ≤ 1000 then (max a 1).toNat else 0) = limitedRows a.toNat := by
  rw [limitedRows, show max a.toNat 1 = (max a 1).toNat from (toNat_max a 1).symm]
  exact if_congr UInt32.le_iff_toNat_le rfl rfl

theorem noWrap_iff_fits (hcell : cellH ≠ 0) : NoWrap f px cellW cellH termCols ↔ Fits f px cellW cellH termCols := by
  constructor
  · intro h
    have hheight := toNat_add_iff.mp h.height
    refine ⟨toNat_add_iff.mp h.width, hheight, fun hk => toNat_mul_iff.mp (h.cols hk), fun hk => ?_⟩
    rw [← toNat_nativeCells hcell hheight]
    exact toNat_mul_iff.mp (h.rows hk)
  · intro h
    refine ⟨toNat_add_iff.mpr h.width, toNat_add_iff.mpr h.height, fun hk => toNat_mul_iff.mpr (h.cols hk), fun hk => ?_⟩
    apply toNat_mul_iff.mpr
    rw [toNat_nativeCells hcell h.height]
    exact h.rows hk

/-! ## The rows are exact -/

theorem limitedRows_max (v : Nat) : limitedRows (max v 1) = limitedRows v := by
  rw [limitedRows, max_assoc, max_self]
  rfl

theorem cells_rows (n : UInt32) : (if n ≤ 1000 then (max n 1).toNat else 0) = limitedRows n.toNat := by
  rw [← toNat_limited]
  refine if_congr ?_ rfl rfl
  rw [UInt32.le_iff_toNat_le, UInt32.le_iff_toNat_le, toNat_max]
  exact ⟨fun h => max_le h (by decide), fun h => le_trans (le_max_left _ _) h⟩

theorem imageBoxRows_percent (hkind : f.height.kind = .percent) (hcell : cellH ≠ 0)
    (h : Fits f px cellW cellH termCols) :
    imageBoxRows rounding f px cellW cellH termCols =
      limitedRows ((px.height.toNat ⌈/⌉ cellH.toNat) * f.height.n.toNat / 100) := by
  have hnative := toNat_nativeCells hcell h.height
  have hmul : (nativeCells px.height cellH * f.height.n).toNat = _ := toNat_mul_iff.mpr (by rw [hnative]; exact h.rows hkind)
  have hcells : f.height.cells rounding cellH termCols (nativeCells px.height cellH) false =
      some (max 1 (nativeCells px.height cellH * f.height.n / 100)) := by
    simp [ImageDim.cells, hkind]
  rw [imageBoxRows, hcells]
  refine (toNat_limited _).trans ?_
  rw [toNat_max, Nat.max_comm, show UInt32.toNat 1 = 1 from rfl, limitedRows_max, UInt32.toNat_div, hmul, hnative]
  rfl

theorem imageBoxRows_automatic (hheight : f.height.kind = .automatic) (hwidth : f.width.kind = .automatic)
    (hcell : cellH ≠ 0) (h : Fits f px cellW cellH termCols) :
    imageBoxRows rounding f px cellW cellH termCols = limitedRows (px.height.toNat ⌈/⌉ cellH.toNat) := by
  have hcells (d : ImageDim) (hd : d.kind = .automatic) (cell native : UInt32) (w : Bool) :
      d.cells rounding cell termCols native w = none := by
    simp [ImageDim.cells, hd]
  rw [imageBoxRows, hcells _ hheight, hcells _ hwidth]
  refine (toNat_limited _).trans ?_
  rw [toNat_nativeCells hcell h.height]

/-- The rows of a size that is not known are 0. -/
theorem iterm2InlineImageRows_eq (hf : parseIterm2File raw = some f) (hkind : f.height.kind ≠ .cells) :
    iterm2InlineImageRows rounding raw cellW cellH termCols =
      some (((knownPixels f cellW cellH).map fun px => imageBoxRows rounding f px cellW cellH termCols).getD 0) := by
  obtain ⟨size, hsize⟩ : ∃ size, imageSizeFromBase64 f.payload = some size := imageSize_some _
  simp only [iterm2InlineImageRows, hf, if_neg hkind, knownPixels, hsize, Option.map_some, Option.join_some]
  by_cases hcell : cellW = 0 ∨ cellH = 0
  · rw [if_pos hcell, if_pos hcell]
    rfl
  · rw [if_neg hcell, if_neg hcell]
    cases size with
    | none => rfl
    | some px =>
      by_cases hpx : px.width = 0 ∨ px.height = 0
      · rw [Option.filter_some_neg (by simpa [or_iff_not_imp_left] using hpx)]
        simp only [if_pos hpx]
        rfl
      · rw [Option.filter_some_pos (by simpa [not_or] using hpx)]
        simp only [if_neg hpx]
        rfl

theorem cell_of_known (h : px ∈ knownPixels f cellW cellH) : cellH ≠ 0 := by
  intro h0
  simp [knownPixels, h0] at h

/-- The rows are exact and nothing wraps exactly when the inputs fit. -/
theorem image_rows_iff (hf : parseIterm2File raw = some f) (hint : f.IntegerOnly) :
    (iterm2InlineImageRows rounding raw cellW cellH termCols = some (exactRows f cellW cellH) ∧
        (f.height.kind ≠ .cells → ∀ px ∈ knownPixels f cellW cellH, NoWrap f px cellW cellH termCols)) ↔
      (f.height.kind ≠ .cells → ∀ px ∈ knownPixels f cellW cellH, Fits f px cellW cellH termCols) := by
  constructor
  · intro h hkind px hpx
    exact (noWrap_iff_fits (cell_of_known hpx)).mp (h.2 hkind px hpx)
  · intro h
    refine ⟨?_, fun hkind px hpx => (noWrap_iff_fits (cell_of_known hpx)).mpr (h hkind px hpx)⟩
    rcases hint with hcells | hpercent | ⟨hheight, hwidth⟩
    · simp only [iterm2InlineImageRows, hf, exactRows, hcells, cells_rows, if_true]
    · have hne : f.height.kind ≠ .cells := by simp [hpercent]
      rw [iterm2InlineImageRows_eq hf hne]
      simp only [exactRows, hpercent]
      cases hk : knownPixels f cellW cellH with
      | none => rfl
      | some px => exact congrArg some (imageBoxRows_percent hpercent (cell_of_known hk) (h hne px hk))
    · have hne : f.height.kind ≠ .cells := by simp [hheight]
      rw [iterm2InlineImageRows_eq hf hne]
      simp only [exactRows, hheight]
      cases hk : knownPixels f cellW cellH with
      | none => rfl
      | some px => exact congrArg some (imageBoxRows_automatic hheight hwidth (cell_of_known hk) (h hne px hk))

/-- The roundings in integers. -/
def integerRounding : ImageRounding where
  pixelCells n cell := .ofNat (n.toNat ⌈/⌉ cell.toNat)
  scaledRows cols px cellW cellH :=
    let divisor := px.width.toNat * cellH.toNat
    .ofNat ((2 * (cols.toNat * cellW.toNat * px.height.toNat) + divisor) / (2 * divisor))

/-- The sequence of a PNG with a width of 16 pixels, for the height of its last characters. -/
def pngSequence (args height : List Char) : List Char32 :=
  iterm2Prefix ++ chars (args ++ [':'] ++ "iVBORw0KGgoAAAANSUhEUgAAAB".toList ++ height ++ ['\x07'])

/-- Half of the height of an image of 40 pixels, in cells of 20 pixels. -/
theorem image_rows_iff_png :
    iterm2InlineImageRows integerRounding (pngSequence "height=50%".toList "AAAAAo".toList) 10 20 80 = some 1 := by
  have hf : parseIterm2File (pngSequence "height=50%".toList "AAAAAo".toList) =
      some ⟨{}, ⟨.percent, 50⟩, chars "iVBORw0KGgoAAAANSUhEUgAAABAAAAAo\x07".toList⟩ := by
    decide
  have hpx : knownPixels ⟨{}, ⟨.percent, 50⟩, chars "iVBORw0KGgoAAAANSUhEUgAAABAAAAAo\x07".toList⟩ 10 20 = some ⟨16, 40⟩ := by
    decide
  refine ((image_rows_iff hf (Or.inr (Or.inl rfl))).mpr fun _ px h => ?_).1.trans (by rw [exactRows, hpx]; decide)
  cases hpx.symm.trans h
  exact ⟨by decide, by decide, nofun, by decide⟩

/-- The sum of the height and the cell wraps to 0: one row instead of 2147483648. -/
theorem tall_image_one_row :
    ∃ f, parseIterm2File (pngSequence "inline=1".toList "D/////".toList) = some f ∧ f.IntegerOnly ∧
      iterm2InlineImageRows integerRounding (pngSequence "inline=1".toList "D/////".toList) 10 2 80 = some 1 ∧
      knownPixels f 10 2 = some ⟨16, 0xFFFFFFFF⟩ ∧ exactRows f 10 2 = 0 :=
  ⟨⟨{}, {}, chars "iVBORw0KGgoAAAANSUhEUgAAABD/////\x07".toList⟩, by decide, Or.inr (Or.inr ⟨rfl, rfl⟩), by decide, by decide,
    by decide⟩

end Corehost
