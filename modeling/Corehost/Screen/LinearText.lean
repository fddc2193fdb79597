import Corehost.Screen.Linear
import Corehost.Screen.Text

/-!
# Text in linear order

The model of `write_char32_linear`, `read_wchars_linear` and of their attribute
counterparts (`screen_buffer.hpp`), which go across the ends of rows.

* `glyphsInRow`: the glyphs that a row gets. A wide character in the last
  column becomes a narrow one;
* `linearEnd`: the cell behind a text, in linear order;
* `write_char32_linear_read`: the write keeps every attribute, changes no
  character outside of its columns apart from glyphs that it cuts, and the
  same text is read back.
-/

namespace Corehost.ScreenBuffer

open Lib Lib.Strip ScreenBufferRow

variable (cw : Char32 → Int)

/-! ## The model -/

/-- How many characters the loop over a row takes, from column `x` on. -/
def charsInRow (width : Int) : Int → List Char32 → Nat
  | _, [] => 0
  | x, ch :: text => if x < width then charsInRow width (i16 (x + widthColumns cw ch)) text + 1 else 0

/-- The loop over a row. -/
def writeCharsRow (width : Int) : Int → List Char32 → ScreenBufferRow → ScreenBufferRow
  | _, [], r => r
  | x, ch :: text, r =>
    if x < width then
      let n := widthColumns cw ch
      writeCharsRow width (i16 (x + n)) text (r.writeKeep (x % 0x10000).toNat ((x + 1) % 0x10000).toNat ch n)
    else r

/-- How many characters have been taken, and the buffer. -/
def writeChar32Linear (s : ScreenBuffer) (start : Coord) (text : List Char32) : Nat × ScreenBuffer :=
  if s.valid start then
    eachRow (fun n => n < text.length) (fun n x => n + charsInRow cw s.size.x x (text.drop n))
      (fun n x => writeCharsRow cw s.size.x x (text.drop n)) (s.size.y - start.y).toNat start.x.toNat start.y.toNat 0 s
  else (0, s)

/-- The cells from `start` on, row by row, at most `n` of them. -/
def linearCells (s : ScreenBuffer) (start : Coord) (n : Nat) : List Coord :=
  if s.valid start then
    ((List.range (s.size.y - start.y).toNat).flatMap fun (k : Nat) =>
      let first := if k = 0 then start.x else 0
      (List.range (s.size.x - first).toNat).map fun (i : Nat) => (⟨first + i, start.y + k⟩ : Coord)).take n
  else []

def readAttrsLinear (s : ScreenBuffer) (start : Coord) (maxLen : Nat) : List Nat :=
  (s.linearCells start maxLen).map fun c =>
    (((s.row c.y).attrAt (u16 c.x.toNat)).legacy ||| (s.row c.y).dbcsFlags (u16 c.x.toNat)).toNat

/-- `write_attr_seq_linear`: the number of attributes written. -/
def writeAttrSeqLinear (s : ScreenBuffer) (start : Coord) (attrs : List Nat) : Nat × ScreenBuffer :=
  let cells := s.linearCells start attrs.length
  (cells.length, (cells.zip attrs).foldl (fun s (c, a) =>
    s.modifyRow c.y fun r => r.setAttr (u16 c.x.toNat) (.ofWord a.toUInt16)) s)

/-- What `read_wchars_linear` stores for one cell; `cells` counts the cells before it. -/
def readWcharAt (s : ScreenBuffer) (maxLen : Nat) (c : Coord) (cells : Nat) : List Nat :=
  let rr := s.row c.y
  let col := u16 c.x.toNat
  let flags := rr.dbcsFlags col
  if flags &&& COMMON_LVB_TRAILING_BYTE ≠ 0 ∧ cells ≠ 0 then []
  else if flags ≠ 0 ∧ (flags &&& COMMON_LVB_TRAILING_BYTE ≠ 0 ∨ cells + 1 = maxLen) then [0x20]
  else
    match rr.glyphAt col with
    | [] => [0x20]
    | cp :: _ => [if cp ≤ 0xFFFF then cp else 0xFFFD]

def readWcharsLinear (s : ScreenBuffer) (start : Coord) (maxLen : Nat) : List Nat :=
  (s.linearCells start maxLen).zipIdx.flatMap fun (c, cells) => s.readWcharAt maxLen c cells

/-! ## Writing in a row -/

/-- The glyphs that a row of `W` columns gets from column `x` on. -/
def glyphsInRow (W : Nat) : Nat → List Char32 → List (Glyph Char32)
  | _, [] => []
  | x, ch :: text =>
    if x < W then
      let g : Glyph Char32 := if x + 1 = W then ⟨ch, false⟩ else glyphOf cw ch
      g :: glyphsInRow W (x + g.cols) text
    else []

variable {cw} {W x : Nat} {text : List Char32}

theorem glyphsInRow_of_le (h : W ≤ x) (text : List Char32) : glyphsInRow cw W x text = [] := by
  cases text with
  | nil => rfl
  | cons ch text => rw [glyphsInRow, if_neg (by omega)]

variable (cw) in
/-- The glyphs are those of the first characters. They end in the row, and fill it when there are more. -/
theorem glyphsInRow_spec : ∀ (text : List Char32) {x : Nat}, x ≤ W →
    x + cols (glyphsInRow cw W x text) ≤ W ∧
      (glyphsInRow cw W x text).map Glyph.char = text.take (glyphsInRow cw W x text).length ∧
      ((glyphsInRow cw W x text).length < text.length → x + cols (glyphsInRow cw W x text) = W)
  | [], x, hx => by simpa [glyphsInRow] using hx
  | ch :: text, x, hx => by
    rw [glyphsInRow]
    by_cases h1 : x < W
    · rw [if_pos h1]
      dsimp only
      generalize hg : (if x + 1 = W then (⟨ch, false⟩ : Glyph Char32) else glyphOf cw ch) = g
      have hfit : x + g.cols ≤ W ∧ g.char = ch := by
        have hle := (glyphOf cw ch).cols_le
        rw [← hg]
        split_ifs
        · exact ⟨h1, rfl⟩
        · exact ⟨by omega, rfl⟩
      obtain ⟨ih1, ih2, ih3⟩ := glyphsInRow_spec text hfit.1
      rw [cols_cons, List.map_cons, List.length_cons, List.take_succ_cons, ih2, hfit.2, List.length_cons]
      exact ⟨by omega, rfl, fun h => by have := ih3 (by omega); omega⟩
    · rw [if_neg h1, cols_nil]
      exact ⟨hx, rfl, fun _ => by omega⟩

theorem charsInRow_eq (hW : W ≤ 0x7FFE) : ∀ (text : List Char32) {x : Nat}, x ≤ W + 1 →
    charsInRow cw W x text = (glyphsInRow cw W x text).length
  | [], _, _ => rfl
  | ch :: text, x, hx => by
    have hn := widthColumns_cases cw ch
    have hcols := cols_glyphOf cw ch
    rw [charsInRow, glyphsInRow]
    by_cases h1 : x < W
    · rw [if_pos (by omega), if_pos h1, i16_of_range (by omega) (by omega)]
      dsimp only
      rw [List.length_cons, ← hcols, ← Nat.cast_add, charsInRow_eq hW text (by omega)]
      split_ifs with h2
      · rw [Glyph.cols_single, glyphsInRow_of_le (by omega), glyphsInRow_of_le (by omega)]
      · rfl
    · rw [if_neg (by omega), if_neg h1, List.length_nil]

theorem writeCharsRow_of_le {x : Int} (h : (W : Int) ≤ x) (text : List Char32) (r : ScreenBufferRow) :
    writeCharsRow cw W x text r = r := by
  cases text with
  | nil => rfl
  | cons ch text => rw [writeCharsRow, if_neg (by omega)]

variable (cw) in
/-- The glyphs are written one after the other, and no attribute changes. -/
theorem shows_writeCharsRow (hW : W ≤ 0x7FFE) : ∀ (text : List Char32) {x : Nat} {r : ScreenBufferRow}
    {gs : List (Glyph Char32)} {as : List TextAttribute}, r.Shows W gs as → x ≤ W →
    (writeCharsRow cw W x text r).Shows W (overwriteEach 0x20 gs x (glyphsInRow cw W x text)) as
  | [], _, _, _, _, h, _ => h
  | ch :: text, x, r, gs, as, h, hx => by
    have hn := widthColumns_cases cw ch
    have hcols := cols_glyphOf cw ch
    rw [writeCharsRow, glyphsInRow]
    by_cases h1 : x < W
    · have hcol : (((x : Nat) : Int) % 0x10000).toNat = x := by omega
      have hnext : (((x : Nat) + 1 : Int) % 0x10000).toNat = x + 1 := by omega
      rw [if_pos (by omega), if_pos h1, hcol, hnext]
      dsimp only
      rw [i16_of_range (by omega) (by omega), overwriteEach]
      by_cases hedge : x + 1 = W ∧ widthColumns cw ch = 2
      · rw [if_pos hedge.1, hedge.2, writeCharsRow_of_le (by omega), Glyph.cols_single, glyphsInRow_of_le (by omega)]
        exact h.writeKeep_edge ch hedge.1
      · have hg : (if x + 1 = W then (⟨ch, false⟩ : Glyph Char32) else glyphOf cw ch) = glyphOf cw ch := by
          split_ifs with h2
          · rw [glyphOf, beq_eq_false_iff_ne.mpr (fun h => hedge ⟨h2, h⟩)]
          · rfl
        have hfit : x + (glyphOf cw ch).cols ≤ W := by omega
        rw [hg, ← hcols, ← Nat.cast_add]
        exact shows_writeCharsRow hW text (h.writeKeep (glyphOf cw ch) hfit) hfit
    · rw [if_neg (by omega), if_neg h1]
      exact h

theorem showsSome_writeCharsRow {w : Nat} (width : Int) : ∀ (text : List Char32) (x : Int) {r : ScreenBufferRow},
    r.ShowsSome w → (writeCharsRow cw width x text r).ShowsSome w
  | [], _, _, h => h
  | ch :: text, x, r, h => by
    have hwrite := h.writeGlyph (x % 0x10000).toNat ch (widthColumns_cases cw ch) (r.attrAt (x % 0x10000).toNat)
    rw [writeCharsRow]
    dsimp only
    split
    · refine showsSome_writeCharsRow width text _ ?_
      unfold writeKeep
      dsimp only
      split
      · exact hwrite.setAttr _ _
      · exact hwrite
    · exact h

/-! ## Positions -/

variable (cw W) in
/-- The cell behind a text that starts in cell `p` of rows of `W` columns, in
linear order. A wide character in the last column of a row takes one cell. -/
def linearEnd : Nat → List Char32 → Nat
  | p, [] => p
  | p, ch :: text => linearEnd (p + min (widthColumns cw ch).toNat (W - p % W)) text

theorem linearEnd_append : ∀ (p : Nat) (a b : List Char32),
    linearEnd cw W p (a ++ b) = linearEnd cw W (linearEnd cw W p a) b
  | _, [], _ => rfl
  | _, _ :: a, b => linearEnd_append _ a b

theorem le_linearEnd : ∀ (p : Nat) (text : List Char32), p ≤ linearEnd cw W p text
  | p, [] => Nat.le_refl p
  | p, _ :: text => Nat.le_trans (Nat.le_add_right p _) (le_linearEnd _ text)

theorem linearEnd_take_le {p m n : Nat} (h : m ≤ n) :
    linearEnd cw W p (text.take m) ≤ linearEnd cw W p (text.take n) := by
  obtain ⟨k, rfl⟩ := Nat.exists_eq_add_of_le h
  rw [List.take_add, linearEnd_append]
  exact le_linearEnd _ _

variable (cw) in
/-- The glyphs of a row end where the characters end. -/
theorem linearEnd_row (y : Nat) : ∀ (text : List Char32) {x : Nat}, x ≤ W →
    linearEnd cw W (y * W + x) (text.take (glyphsInRow cw W x text).length) = y * W + x + cols (glyphsInRow cw W x text)
  | [], _, _ => rfl
  | ch :: text, x, hx => by
    have hn := widthColumns_cases cw ch
    have hcols := cols_glyphOf cw ch
    rw [glyphsInRow]
    by_cases h1 : x < W
    · have hmod : (y * W + x) % W = x := by
        rw [Nat.add_comm, Nat.add_mul_mod_self_right, Nat.mod_eq_of_lt h1]
      rw [if_pos h1]
      dsimp only
      generalize hg : (if x + 1 = W then (⟨ch, false⟩ : Glyph Char32) else glyphOf cw ch) = g
      have hmin : min (widthColumns cw ch).toNat (W - x) = g.cols := by
        rw [← hg]
        split_ifs
        · rw [Glyph.cols_single]
          omega
        · omega
      rw [List.length_cons, List.take_succ_cons, linearEnd, hmod, hmin, cols_cons, Nat.add_assoc (y * W),
        linearEnd_row y text (by omega)]
      omega
    · rw [if_neg h1]
      rfl

/-! ## The rows -/

variable (cw W text) in
/-- How many characters have been taken in front of the row with index `i`. -/
def takenBefore (x₀ i : Nat) : Nat :=
  rowState (fun n => decide (n < text.length)) (fun n (x : Nat) => n + charsInRow cw W x (text.drop n)) x₀ 0 i

variable (cw text) in
theorem takenBefore_succ (hW : W ≤ 0x7FFE) {x₀ : Nat} (hx₀ : x₀ < W) (i : Nat) :
    takenBefore cw W text x₀ (i + 1) =
      if takenBefore cw W text x₀ i < text.length then
        takenBefore cw W text x₀ i +
          (glyphsInRow cw W (if i = 0 then x₀ else 0) (text.drop (takenBefore cw W text x₀ i))).length
      else takenBefore cw W text x₀ i := by
  unfold takenBefore
  rw [rowState, charsInRow_eq hW _ (by split_ifs <;> omega)]
  simp only [decide_eq_true_eq]

variable (cw text) in
theorem takenBefore_le (hW : W ≤ 0x7FFE) {x₀ : Nat} (hx₀ : x₀ < W) {i j : Nat} (h : i ≤ j) :
    takenBefore cw W text x₀ i ≤ takenBefore cw W text x₀ j := by
  induction h with
  | refl => exact Nat.le_refl _
  | step h ih =>
    rw [takenBefore_succ cw text hW hx₀]
    split <;> omega

variable (cw text) in
/-- While there are characters left, the next one is written at the beginning of a row. -/
theorem takenBefore_spec (hW : W ≤ 0x7FFE) {x₀ : Nat} (hx₀ : x₀ < W) (y₀ : Nat) : ∀ i : Nat,
    takenBefore cw W text x₀ i ≤ text.length ∧
      linearEnd cw W (y₀ * W + x₀) (text.take (takenBefore cw W text x₀ i)) ≤ (y₀ + i) * W + (if i = 0 then x₀ else 0) ∧
      (takenBefore cw W text x₀ i < text.length →
        linearEnd cw W (y₀ * W + x₀) (text.take (takenBefore cw W text x₀ i)) = (y₀ + i) * W + (if i = 0 then x₀ else 0))
  | 0 => ⟨Nat.zero_le _, Nat.le_refl _, fun _ => rfl⟩
  | i + 1 => by
    obtain ⟨ih1, ih2, ih3⟩ := takenBefore_spec hW hx₀ y₀ i
    have hnext : (y₀ + (i + 1)) * W = (y₀ + i) * W + W := by rw [← Nat.add_assoc, Nat.succ_mul]
    have hx : (if i = 0 then x₀ else 0) ≤ W := by split <;> omega
    rw [takenBefore_succ cw text hW hx₀, hnext, if_neg (Nat.succ_ne_zero i), Nat.add_zero]
    generalize takenBefore cw W text x₀ i = n at *
    generalize (if i = 0 then x₀ else 0) = x at *
    by_cases hn : n < text.length
    · obtain ⟨h1, h2, h3⟩ := glyphsInRow_spec cw (text.drop n) hx
      have hlen := congrArg List.length h2
      rw [List.length_map, List.length_take, List.length_drop] at hlen
      rw [List.length_drop] at h3
      rw [if_pos hn, List.take_add, linearEnd_append, ih3 hn, linearEnd_row cw _ _ hx]
      exact ⟨by omega, by omega, fun h => by have := h3 (by omega); omega⟩
    · rw [if_neg hn]
      exact ⟨ih1, by omega, fun h => absurd h hn⟩

variable {s : ScreenBuffer} {start : Coord}

variable (cw) in
/-- Each row gets the characters that are left in front of it. -/
theorem row_writeChar32Linear (h : s.Sized) (hW : s.size.x = W) (hv : s.valid start = true)
    (text : List Char32) :
    (s.writeChar32Linear cw start text).1 = takenBefore cw W text start.x.toNat (s.size.y - start.y).toNat ∧
      (s.writeChar32Linear cw start text).2.Sized ∧ (s.writeChar32Linear cw start text).2.size = s.size ∧
      ∀ y : Nat, (y : Int) < s.size.y →
        let n := takenBefore cw W text start.x.toNat (y - start.y.toNat)
        (s.writeChar32Linear cw start text).2.row y =
          if start.y.toNat ≤ y ∧ n < text.length then
            writeCharsRow cw W (if y = start.y.toNat then start.x.toNat else 0 : Nat) (text.drop n) (s.row y)
          else s.row y := by
  obtain ⟨⟨h1, h2⟩, h3, h4⟩ := valid_iff.mp hv
  obtain ⟨hst, hsized, hsize, -, hrows⟩ := eachRow_spec (fun n => decide (n < text.length))
    (fun n (x : Nat) => n + charsInRow cw W x (text.drop n)) (fun n (x : Nat) => writeCharsRow cw W x (text.drop n))
    (fun w n x r hr => showsSome_writeCharsRow W (text.drop n) x hr) (s.size.y - start.y).toNat start.x.toNat start.y.toNat 0 h
    (by omega)
  rw [writeChar32Linear, if_pos hv, hW]
  refine ⟨hst, hsized, hsize, fun y hy => (hrows y hy).trans ?_⟩
  simp only [decide_eq_true_eq]
  refine if_congr ?_ rfl rfl
  unfold takenBefore
  omega

variable (cw) in
/-- A row outside of the glyphs that it gets. -/
theorem cellAt_writeCharsRow {r : ScreenBufferRow} (hr : r.ShowsSome W) (hle : W ≤ 0x7FFE) (hx : x ≤ W) (text : List Char32)
    {d : Nat} (hd : d < W) :
    ((writeCharsRow cw W x text r).cellAt d).attr = (r.cellAt d).attr ∧
      (¬ (x ≤ d ∧ d < x + cols (glyphsInRow cw W x text)) → (writeCharsRow cw W x text r).cellAt d =
        if glyphsInRow cw W x text ≠ [] ∧ (d + 1 = x ∧ (r.cellAt d).cols = 2 ∨
          d = x + cols (glyphsInRow cw W x text) ∧ (r.cellAt d).cols = 0) then (r.cellAt d).cut else r.cellAt d) := by
  obtain ⟨gs, as, h⟩ := hr
  have hw := shows_writeCharsRow cw hle text h hx
  obtain ⟨hfit, -⟩ := glyphsInRow_spec cw text hx
  have hattr : (r.cellAt d).attr = as.getD d {} := h.attrAt_eq hd
  refine ⟨(hw.attrAt_eq hd).trans hattr.symm, fun hout => ?_⟩
  generalize glyphsInRow cw W x text = new at *
  rcases new with _ | ⟨g, new⟩
  · have hsame := (hw.cellAt_eq hd).trans (h.cellAt_eq hd).symm
    rw [if_neg (fun hh => hh.1 rfl)]
    exact Option.some_inj.mp hsame
  · rw [overwriteEach_eq _ _ _ (by rw [h.cols_eq]; exact hfit)] at hw
    rw [h.cellAt_put hw hfit hd, if_neg hout, ← hattr]
    simp only [ne_eq, List.cons_ne_nil, not_false_eq_true, true_and]
    rfl

variable (cw text) in
/-- The glyphs of a row that gets some end where all of them end, or fill the row. -/
theorem glyphsInRow_end (hW : W ≤ 0x7FFE) {x₀ : Nat} (hx₀ : x₀ < W) (y₀ : Nat) {i j : Nat} (hij : i < j)
    (hn : takenBefore cw W text x₀ i < text.length) :
    let x := if i = 0 then x₀ else 0
    let new := glyphsInRow cw W x (text.drop (takenBefore cw W text x₀ i))
    let behind := linearEnd cw W (y₀ * W + x₀) (text.take (takenBefore cw W text x₀ j))
    new ≠ [] ∧ (behind = (y₀ + i) * W + x + cols new ∨
      x + cols new = W ∧ (y₀ + i) * W + x + cols new ≤ behind) := by
  intro x new behind
  have hx : x < W := by
    change (if i = 0 then x₀ else 0) < W
    split <;> omega
  obtain ⟨-, -, hstart⟩ := takenBefore_spec cw text hW hx₀ y₀ i
  obtain ⟨hle, -, -⟩ := takenBefore_spec cw text hW hx₀ y₀ (i + 1)
  obtain ⟨hlej, -, -⟩ := takenBefore_spec cw text hW hx₀ y₀ j
  obtain ⟨-, -, hfull⟩ := glyphsInRow_spec cw (text.drop (takenBefore cw W text x₀ i)) (Nat.le_of_lt hx)
  have hmono := takenBefore_le cw text hW hx₀ (show i + 1 ≤ j from hij)
  have hnext := takenBefore_succ cw text hW hx₀ i
  have hrow : linearEnd cw W (y₀ * W + x₀) (text.take (takenBefore cw W text x₀ (i + 1))) =
      (y₀ + i) * W + x + cols new := by
    rw [hnext, if_pos hn, List.take_add, linearEnd_append, hstart hn]
    exact linearEnd_row cw _ _ (Nat.le_of_lt hx)
  rw [if_pos hn] at hnext
  change _ = _ + new.length at hnext
  change new.length < _ → _ at hfull
  refine ⟨fun hnil => ?_, ?_⟩
  · have hdrop := List.drop_eq_getElem_cons hn
    change glyphsInRow cw W x _ = [] at hnil
    rw [hdrop, glyphsInRow, if_pos hx] at hnil
    exact List.cons_ne_nil _ _ hnil
  · by_cases hlast : takenBefore cw W text x₀ (i + 1) < text.length
    · refine .inr ⟨hfull ?_, hrow ▸ linearEnd_take_le hmono⟩
      rw [List.length_drop]
      omega
    · refine .inl ?_
      have hall : takenBefore cw W text x₀ j = takenBefore cw W text x₀ (i + 1) := by omega
      rw [← hrow, ← hall]

/-- Every cell keeps its attribute, and a cell outside of the text changes only
when it is the rest of a glyph that is cut. -/
theorem cellAt_writeChar32Linear (h : s.Sized) (hW : s.size.x = W) (hle : W ≤ 0x7FFE) (hv : s.valid start = true)
    (text : List Char32) {x y : Nat} (hx : x < W) (hy : (y : Int) < s.size.y) :
    let first := start.y.toNat * W + start.x.toNat
    let behind := linearEnd cw W first (text.take (s.writeChar32Linear cw start text).1)
    let old := s.cellAt x y
    let new := (s.writeChar32Linear cw start text).2.cellAt x y
    new.attr = old.attr ∧ (y * W + x < first ∨ behind ≤ y * W + x →
      new = if first < behind ∧ (y * W + x + 1 = first ∧ old.cols = 2 ∨ y * W + x = behind ∧ old.cols = 0)
        then old.cut else old) := by
  intro first behind old new
  obtain ⟨⟨h1, h2⟩, h3, h4⟩ := valid_iff.mp hv
  have hx₀ : start.x.toNat < W := by omega
  obtain ⟨hcount, hsized, hsize, hrows⟩ := row_writeChar32Linear cw h hW hv text
  have hrow := hrows y hy
  have hshows : (s.row y).ShowsSome W := by
    have := showsSome_row h hy
    rwa [hW] at this
  obtain ⟨cp, -, hcase⟩ := hshows.cell_cases hx
  have hlead : old.cols = 2 → x + 1 < W := by
    intro h2
    change (s.row y).glyphWidth x = 2 at h2
    omega
  have htrail : old.cols = 0 → 0 < x := by
    intro h0
    change (s.row y).glyphWidth x = 0 at h0
    omega
  have hbehind : first ≤ behind := le_linearEnd _ _
  dsimp only at hrow
  rcases Nat.lt_or_ge y start.y.toNat with hlt | hge
  · -- a row above the text
    have hsame : new = old := by
      change ((s.writeChar32Linear cw start text).2.row y).cellAt x = (s.row y).cellAt x
      rw [hrow, if_neg (by omega)]
    have habove : y * W + W ≤ start.y.toNat * W := by
      rw [← Nat.succ_mul]
      exact Nat.mul_le_mul_right W hlt
    rw [hsame]
    refine ⟨rfl, fun _ => (if_neg ?_).symm⟩
    omega
  · obtain ⟨i, rfl⟩ := Nat.exists_eq_add_of_le hge
    rw [Nat.add_sub_cancel_left] at hrow
    have hbelow : 0 < i → start.y.toNat * W + W ≤ (start.y.toNat + i) * W := by
      intro hi
      rw [← Nat.succ_mul]
      exact Nat.mul_le_mul_right W (by omega)
    have hcol : (if start.y.toNat + i = start.y.toNat then start.x.toNat else 0) = if i = 0 then start.x.toNat else 0 := by
      refine if_congr ?_ rfl rfl
      omega
    rw [hcol] at hrow
    have hzero : i = 0 → (start.y.toNat + i) * W = start.y.toNat * W ∧ (if i = 0 then start.x.toNat else 0) = start.x.toNat := by
      rintro rfl
      exact ⟨rfl, rfl⟩
    have hpos : 0 < i → (if i = 0 then start.x.toNat else 0) = 0 := fun hi => if_neg (by omega)
    have hfirst : first = start.y.toNat * W + start.x.toNat := rfl
    by_cases hn : takenBefore cw W text start.x.toNat i < text.length
    · rw [if_pos ⟨by omega, hn⟩] at hrow
      obtain ⟨hne, hend⟩ := glyphsInRow_end cw text hle hx₀ start.y.toNat (show i < (s.size.y - start.y).toNat by omega) hn
      rw [← hcount] at hend
      have hcut := cellAt_writeCharsRow cw hshows hle
        (show (if i = 0 then start.x.toNat else 0) ≤ W by split <;> omega) (text.drop (takenBefore cw W text start.x.toNat i)) hx
      rw [← hrow] at hcut
      have hsome : 0 < cols (glyphsInRow cw W (if i = 0 then start.x.toNat else 0)
          (text.drop (takenBefore cw W text start.x.toNat i))) :=
        Nat.lt_of_lt_of_le (List.length_pos_iff.mpr hne) (length_le_cols _)
      change behind = _ ∨ _ ∧ _ ≤ behind at hend
      change new.attr = old.attr ∧ (_ → new = if _ ∧ (_ ∧ old.cols = 2 ∨ _ ∧ old.cols = 0) then old.cut else old) at hcut
      simp only [hne, ne_eq, not_false_eq_true, true_and] at hcut
      generalize (if i = 0 then start.x.toNat else 0) = x' at *
      refine ⟨hcut.1, fun hout => (hcut.2 (by omega)).trans (if_congr (by omega) rfl rfl)⟩
    · -- the text has ended in a row above
      obtain ⟨hni, hend, -⟩ := takenBefore_spec cw text hle hx₀ start.y.toNat i
      obtain ⟨hnj, -, -⟩ := takenBefore_spec cw text hle hx₀ start.y.toNat (s.size.y - start.y).toNat
      have hmono := takenBefore_le cw text hle hx₀ (show i ≤ (s.size.y - start.y).toNat by omega)
      have hsame : new = old := by
        change ((s.writeChar32Linear cw start text).2.row _).cellAt x = (s.row _).cellAt x
        rw [hrow, if_neg (fun hh => hn hh.2)]
      rw [show takenBefore cw W text start.x.toNat i = (s.writeChar32Linear cw start text).1 by omega] at hend
      change behind ≤ _ at hend
      rw [hsame]
      refine ⟨rfl, fun _ => (if_neg ?_).symm⟩
      omega

/-! ## Reading -/

variable {as : List TextAttribute} {maxLen : Nat} {y : Int}

/-- One cell, with the number of cells and the characters so far. -/
def readColumn (maxLen : Nat) (s : ScreenBuffer) (y : Int) (st : Nat × List Nat) (x : Nat) : Nat × List Nat :=
  if st.1 < maxLen then (st.1 + 1, st.2 ++ s.readWcharAt maxLen ⟨x, y⟩ st.1) else st

def readRow (maxLen width x : Nat) (s : ScreenBuffer) (y : Int) (st : Nat × List Nat) : Nat × List Nat :=
  (List.range' x (width - x)).foldl (readColumn maxLen s y) st

/-- Cells one after the other, until there are enough. -/
theorem foldl_readWcharAt (s : ScreenBuffer) (n : Nat) : ∀ (cs : List Coord) (cells : Nat) (out : List Nat),
    (cs.foldl (fun (st : Nat × List Nat) c => if st.1 < n then (st.1 + 1, st.2 ++ s.readWcharAt n c st.1) else st)
      (cells, out)).2 = out ++ ((cs.take (n - cells)).zipIdx cells).flatMap fun p => s.readWcharAt n p.1 p.2
  | [], _, _ => by simp
  | c :: cs, cells, out => by
    rw [List.foldl_cons]
    by_cases h : cells < n
    · rw [if_pos h, foldl_readWcharAt s n cs, show n - cells = n - (cells + 1) + 1 by omega, List.take_succ_cons,
        List.zipIdx_cons, List.flatMap_cons, List.append_assoc]
    · have ih := foldl_readWcharAt s n cs cells out
      rw [show n - cells = 0 by omega, List.take_zero] at ih ⊢
      rw [if_neg h, ih]

theorem readWcharsLinear_eq (hv : s.valid start = true) (maxLen : Nat) : s.readWcharsLinear start maxLen =
    ((List.range' start.y.toNat (s.size.y - start.y).toNat).foldl (fun st (y : Nat) =>
      readRow maxLen s.size.x.toNat (if y = start.y.toNat then start.x.toNat else 0) s y st) (0, [])).2 := by
  obtain ⟨⟨h1, h2⟩, h3, h4⟩ := valid_iff.mp hv
  have hall := foldl_readWcharAt s maxLen ((List.range (s.size.y - start.y).toNat).flatMap fun (k : Nat) =>
    let first := if k = 0 then start.x else 0
    (List.range (s.size.x - first).toNat).map fun (i : Nat) => (⟨first + i, start.y + k⟩ : Coord)) 0 []
  rw [List.nil_append, Nat.sub_zero, List.foldl_flatMap] at hall
  rw [readWcharsLinear, linearCells, if_pos hv]
  refine hall.symm.trans (congrArg Prod.snd ?_)
  rw [List.range'_eq_map_range, List.foldl_map]
  refine List.foldl_ext _ _ _ fun st k _ => ?_
  have hrow : ((start.y.toNat + k : Nat) : Int) = start.y + k := by omega
  have hcol : (if k = 0 then start.x else 0) =
      ((if start.y.toNat + k = start.y.toNat then start.x.toNat else 0 : Nat) : Int) := by
    split_ifs <;> omega
  dsimp only
  rw [readRow, List.range'_eq_map_range, List.foldl_map, List.foldl_map, hrow, hcol]
  generalize (if start.y.toNat + k = start.y.toNat then start.x.toNat else 0) = x
  rw [show (s.size.x - (x : Int)).toNat = s.size.x.toNat - x by omega]
  rfl

theorem readColumn_done {st : Nat × List Nat} (h : maxLen ≤ st.1) (s : ScreenBuffer) (y : Int) (x : Nat) :
    readColumn maxLen s y st x = st := if_neg (by omega)

theorem foldl_readColumn_done {st : Nat × List Nat} (h : maxLen ≤ st.1) (s : ScreenBuffer) (y : Int) : ∀ xs : List Nat,
    xs.foldl (readColumn maxLen s y) st = st
  | [] => rfl
  | x :: xs => by rw [List.foldl_cons, readColumn_done h, foldl_readColumn_done h s y xs]

theorem readColumn_narrow {pre post : List (Glyph Char32)} {ch : Char32} (h : (s.row y).Shows W (pre ++ ⟨ch, false⟩ :: post) as)
    {cells : Nat} (hcells : cells < maxLen) (hch : ch ≤ 0xFFFF) (out : List Nat) :
    readColumn maxLen s y (cells, out) (cols pre) = (cells + 1, out ++ [ch]) := by
  have hw := h.width_le
  have hcols := h.cols_eq
  have hnext : (s.row y).isTrailing (cols pre + 1) = false := by
    have := (show (s.row y).Shows W ((pre ++ [⟨ch, false⟩]) ++ post) as by simpa using h).isTrailing_boundary
    simpa using this
  simp only [cols_append, cols_cons, Glyph.cols_single] at hcols
  have hflags : (s.row y).dbcsFlags (cols pre) = 0 := by
    rw [dbcsFlags, h.isTrailing_boundary, u16_of_lt (by omega), hnext]
    simp
  rw [readColumn, if_pos hcells, readWcharAt]
  dsimp only
  rw [Int.toNat_natCast, u16_of_lt (by omega), hflags, if_neg (by simp), if_neg (by simp), h.glyphAt_lead]
  dsimp only
  rw [if_pos hch]

theorem readColumns_wide {pre post : List (Glyph Char32)} {ch : Char32} (h : (s.row y).Shows W (pre ++ ⟨ch, true⟩ :: post) as)
    {cells : Nat} (hcells : cells + 1 < maxLen) (hch : ch ≤ 0xFFFF) (out : List Nat) :
    readColumn maxLen s y (readColumn maxLen s y (cells, out) (cols pre)) (cols pre + 1) = (cells + 2, out ++ [ch]) := by
  have hw := h.width_le
  have hwidth := h.width_eq
  have hcols := h.cols_eq
  simp only [cols_append, cols_cons, Glyph.cols_double] at hcols
  have hlead : (s.row y).dbcsFlags (cols pre) = COMMON_LVB_LEADING_BYTE := by
    rw [dbcsFlags, h.isTrailing_boundary, u16_of_lt (by omega), h.isTrailing_trail, hwidth, if_neg (by decide),
      if_pos ⟨by omega, rfl⟩]
  have htrail : (s.row y).dbcsFlags (cols pre + 1) = COMMON_LVB_TRAILING_BYTE := by
    rw [dbcsFlags, h.isTrailing_trail, if_pos rfl]
  have hfirst : readColumn maxLen s y (cells, out) (cols pre) = (cells + 1, out ++ [ch]) := by
    rw [readColumn, if_pos (Nat.lt_of_succ_lt hcells), readWcharAt]
    dsimp only
    rw [Int.toNat_natCast, u16_of_lt (by omega), hlead, if_neg (fun hh => absurd hh.1 (by decide)),
      if_neg (fun hh => hh.2.elim (absurd · (by decide)) (by omega)), h.glyphAt_lead]
    dsimp only
    rw [if_pos hch]
  rw [hfirst, readColumn, if_pos hcells, readWcharAt]
  dsimp only
  rw [Int.toNat_natCast, u16_of_lt (by omega), htrail, if_pos ⟨by decide, by omega⟩, List.append_nil]

/-- One character is read for each glyph. -/
theorem readColumns_glyphs : ∀ (new pre post : List (Glyph Char32)) (cells : Nat) (out : List Nat),
    (s.row y).Shows W (pre ++ new ++ post) as → cells + cols new ≤ maxLen → (∀ g ∈ new, g.char ≤ 0xFFFF) →
    (List.range' (cols pre) (cols new)).foldl (readColumn maxLen s y) (cells, out) =
      (cells + cols new, out ++ new.map Glyph.char)
  | [], _, _, _, _, _, _, _ => by simp
  | ⟨ch, wide⟩ :: new, pre, post, cells, out, h, hmax, hch => by
    have hrow : (s.row y).Shows W (pre ++ ⟨ch, wide⟩ :: (new ++ post)) as := by simpa using h
    have hrest : (s.row y).Shows W ((pre ++ [⟨ch, wide⟩]) ++ new ++ post) as := by simpa using h
    have hbmp := hch _ List.mem_cons_self
    rw [cols_cons] at hmax
    cases wide with
    | false =>
      rw [Glyph.cols_single] at hmax
      have ih := readColumns_glyphs new (pre ++ [⟨ch, false⟩]) post (cells + 1) (out ++ [ch]) hrest
        (by omega) fun g hg => hch g (List.mem_cons_of_mem _ hg)
      rw [cols_append, cols_cons, cols_nil, Glyph.cols_single] at ih
      rw [cols_cons, Glyph.cols_single, Nat.add_comm 1, List.range'_succ, List.foldl_cons,
        readColumn_narrow hrow (by omega) hbmp, ih]
      exact Prod.ext (by dsimp only; omega) (by simp)
    | true =>
      rw [Glyph.cols_double] at hmax
      have ih := readColumns_glyphs new (pre ++ [⟨ch, true⟩]) post (cells + 2) (out ++ [ch]) hrest
        (by omega) fun g hg => hch g (List.mem_cons_of_mem _ hg)
      rw [cols_append, cols_cons, cols_nil, Glyph.cols_double] at ih
      rw [cols_cons, Glyph.cols_double, Nat.add_comm 2, List.range'_succ, List.range'_succ, List.foldl_cons, List.foldl_cons,
        readColumns_wide hrow (by omega) hbmp, ih]
      exact Prod.ext (by dsimp only; omega) (by simp)

/-- The glyphs of a row, which fill it or end where the read ends. -/
theorem readRow_glyphs {x : Nat} {gs new : List (Glyph Char32)} (h : (s.row y).Shows W (put gs x new) as) (hx : x ≤ cols gs)
    {cells : Nat} (hmax : cells + cols new ≤ maxLen) (hend : cells + cols new = maxLen ∨ x + cols new = W)
    (hch : ∀ g ∈ new, g.char ≤ 0xFFFF) (out : List Nat) :
    readRow maxLen W x s y (cells, out) = (cells + cols new, out ++ new.map Glyph.char) := by
  have hhead : cols (headTo 0x20 gs x) = x := cols_headTo _ hx
  have hcols := h.cols_eq
  have hread := readColumns_glyphs new (headTo 0x20 gs x) (tailFrom 0x20 gs (x + cols new)) cells out h hmax hch
  rw [hhead] at hread
  rw [put, overwrite, cols_append, cols_append, hhead] at hcols
  have hsplit : List.range' x (W - x) = List.range' x (cols new) ++ List.range' (x + cols new) (W - x - cols new) := by
    rw [List.range'_append_1]
    congr 1
    omega
  rw [readRow, hsplit, List.foldl_append, hread]
  rcases hend with hdone | hfull
  · exact foldl_readColumn_done (Nat.le_of_eq hdone.symm) s y _
  · rw [show W - x - cols new = 0 by omega]
    rfl

/-- What the rows up to the one with index `j` give back. -/
theorem readRows_written (h : s.Sized) (hW : s.size.x = W) (hle : W ≤ 0x7FFE) (hv : s.valid start = true)
    {text : List Char32} (hch : ∀ ch ∈ text.take (s.writeChar32Linear cw start text).1, ch ≤ 0xFFFF) :
    let first := start.y.toNat * W + start.x.toNat
    let maxLen := linearEnd cw W first (text.take (s.writeChar32Linear cw start text).1) - first
    ∀ j ≤ (s.size.y - start.y).toNat,
      (List.range' start.y.toNat j).foldl (fun st y => readRow maxLen W (if y = start.y.toNat then start.x.toNat else 0)
        (s.writeChar32Linear cw start text).2 y st) (0, []) =
      (linearEnd cw W first (text.take (takenBefore cw W text start.x.toNat j)) - first,
        text.take (takenBefore cw W text start.x.toNat j))
  | 0, _ => by
    change _ = (linearEnd _ _ _ [] - _, [])
    rw [linearEnd, Nat.sub_self]
    rfl
  | j + 1, hj => by
    obtain ⟨⟨h1, h2⟩, h3, h4⟩ := valid_iff.mp hv
    have hx₀ : start.x.toNat < W := by omega
    have ih := readRows_written h hW hle hv hch j (by omega)
    obtain ⟨hcount, -, -, hrows⟩ := row_writeChar32Linear cw h hW hv text
    have hrow := hrows (start.y.toNat + j) (by omega)
    have hcol : (if start.y.toNat + j = start.y.toNat then start.x.toNat else 0) = if j = 0 then start.x.toNat else 0 := by
      refine if_congr ?_ rfl rfl
      omega
    have hnext := takenBefore_succ cw text hle hx₀ j
    dsimp only at hrow
    rw [Nat.add_sub_cancel_left, hcol] at hrow
    rw [List.range'_1_concat, List.foldl_append, ih, List.foldl_cons, List.foldl_nil, hcol]
    by_cases hn : takenBefore cw W text start.x.toNat j < text.length
    · obtain ⟨hne, hend⟩ := glyphsInRow_end cw text hle hx₀ start.y.toNat (show j < (s.size.y - start.y).toNat by omega) hn
      obtain ⟨-, -, hstart⟩ := takenBefore_spec cw text hle hx₀ start.y.toNat j
      have hx : (if j = 0 then start.x.toNat else 0) ≤ W := by split <;> omega
      have hmono := takenBefore_le cw text hle hx₀ hj
      rw [if_pos hn] at hnext
      have hin : start.y.toNat ≤ start.y.toNat + j ∧ takenBefore cw W text start.x.toNat j < text.length :=
        ⟨Nat.le_add_right _ _, hn⟩
      rw [if_pos hin] at hrow
      obtain ⟨hfit, hchars, -⟩ := glyphsInRow_spec cw (text.drop (takenBefore cw W text start.x.toNat j)) hx
      have hrowEnd := linearEnd_row cw (start.y.toNat + j) (text.drop (takenBefore cw W text start.x.toNat j)) hx
      have hsome := showsSome_row h (show ((start.y.toNat + j : Nat) : Int) < s.size.y by omega)
      rw [hW, Int.toNat_natCast] at hsome
      obtain ⟨gs, as, hold⟩ := hsome
      have hshows := shows_writeCharsRow cw hle (text.drop (takenBefore cw W text start.x.toNat j)) hold hx
      have hlow : (if j = 0 then start.x.toNat else 0) = start.x.toNat ∧ (start.y.toNat + j) * W = start.y.toNat * W ∨
          start.y.toNat * W + W ≤ (start.y.toNat + j) * W := by
        rcases Nat.eq_zero_or_pos j with rfl | hj
        · exact .inl ⟨rfl, rfl⟩
        · rw [← Nat.succ_mul]
          exact .inr (Nat.mul_le_mul_right W (by omega))
      have hbmp : ∀ ch ∈ text.take (takenBefore cw W text start.x.toNat (j + 1)), ch ≤ 0xFFFF := fun ch hmem =>
        hch ch (List.take_subset_take_left _ (hcount ▸ hmono) hmem)
      rw [hnext, List.take_add] at hbmp
      rw [hnext, List.take_add, linearEnd_append, hstart hn, hrowEnd, ← hchars]
      rw [← hcount] at hend
      change glyphsInRow cw W _ _ ≠ [] at hne
      generalize glyphsInRow cw W _ _ = new at *
      have hput : overwriteEach 0x20 gs (if j = 0 then start.x.toNat else 0) new =
          put gs (if j = 0 then start.x.toNat else 0) new := by
        rcases new with _ | ⟨g, new⟩
        · exact absurd rfl hne
        · exact overwriteEach_eq _ _ _ (by rw [hold.cols_eq]; exact hfit)
      rw [hput, ← hrow] at hshows
      generalize (if j = 0 then start.x.toNat else 0) = x at *
      rw [readRow_glyphs hshows (by rw [hold.cols_eq]; exact hx) (by omega) (by omega)
        fun g hg => hbmp g.char (List.mem_append_right _ (hchars ▸ List.mem_map_of_mem hg))]
      refine Prod.ext ?_ rfl
      dsimp only
      omega
    · -- the text has ended in a row above
      obtain ⟨hni, -, -⟩ := takenBefore_spec cw text hle hx₀ start.y.toNat j
      obtain ⟨hnj, -, -⟩ := takenBefore_spec cw text hle hx₀ start.y.toNat (s.size.y - start.y).toNat
      have hmono := takenBefore_le cw text hle hx₀ (show j ≤ (s.size.y - start.y).toNat by omega)
      have hall : takenBefore cw W text start.x.toNat j = (s.writeChar32Linear cw start text).1 := by omega
      rw [if_neg hn] at hnext
      rw [hnext, hall, readRow]
      refine foldl_readColumn_done ?_ _ _ _
      exact Nat.le_refl _

/-- Text that is written in linear order: every cell keeps its attribute, no
character outside of the text changes apart from the rest of a glyph that is
cut, and the characters that have been taken are read back. A wide character in
the last column of a row, which becomes a narrow one there, is read back too. -/
theorem write_char32_linear_read (cw : Char32 → Int) {sz : Coord} (hx : 1 ≤ sz.x ∧ sz.x ≤ 0x7FFF)
    (hy : 1 ≤ sz.y ∧ sz.y ≤ 0x7FFF) (history : List Op) (hwidth : (run (ofSize sz) history).size.x ≤ 32766) (start : Coord)
    (hv : (run (ofSize sz) history).valid start = true) (text : List Char32) :
    let s := run (ofSize sz) history
    let taken := (s.writeChar32Linear cw start text).1
    let s' := (s.writeChar32Linear cw start text).2
    let W := s.size.x.toNat
    let first := start.y.toNat * W + start.x.toNat
    let behind := linearEnd cw W first (text.take taken)
    (∀ x y : Nat, (x : Int) < s.size.x → (y : Int) < s.size.y →
      (s'.cellAt x y).attr = (s.cellAt x y).attr ∧
      (y * W + x < first ∨ behind ≤ y * W + x → s'.cellAt x y =
        if first < behind ∧ (y * W + x + 1 = first ∧ (s.cellAt x y).cols = 2 ∨
          y * W + x = behind ∧ (s.cellAt x y).cols = 0) then (s.cellAt x y).cut else s.cellAt x y)) ∧
    ((∀ ch ∈ text.take taken, ch ≤ 0xFFFF) → s'.readWcharsLinear start (behind - first) = text.take taken) := by
  intro s taken s' W first behind
  have h : s.Sized := (sim_run history (sim_ofSize hx hy)).sized
  have hpos : 0 < s.size.x := by
    have hcol := (valid_iff.mp hv).1
    change 0 ≤ start.x ∧ start.x < s.size.x at hcol
    omega
  have hW : s.size.x = (s.size.x.toNat : Int) := (Int.toNat_of_nonneg (Int.le_of_lt hpos)).symm
  have hle : s.size.x.toNat ≤ 0x7FFE := by
    change s.size.x ≤ 32766 at hwidth
    omega
  obtain ⟨hcount, -, hsize, -⟩ := row_writeChar32Linear cw h hW hv text
  refine ⟨fun x y hxw hyh => cellAt_writeChar32Linear h hW hle hv text (by omega) hyh, fun hch => ?_⟩
  have hread := readRows_written h hW hle hv hch (s.size.y - start.y).toNat (Nat.le_refl _)
  rw [← hcount] at hread
  have hv' : (s.writeChar32Linear cw start text).2.valid start = true := by
    rw [valid, hsize]
    exact hv
  rw [readWcharsLinear_eq hv', hsize]
  exact congrArg Prod.snd hread

/-- Three characters in two rows, the last of which cuts a wide glyph. -/
theorem write_char32_linear_read_two_rows :
    let s := run (ofSize ⟨3, 2⟩) [.writeGlyph ⟨0, 1⟩ 0x4E2D 2 0x1E]
    let s' := (s.writeChar32Linear (fun ch => if ch = 0x4E2D then 2 else 1) ⟨0, 0⟩ [0x61, 0x4E2D, 0x62]).2
    s'.readWcharsLinear ⟨0, 0⟩ 4 = [0x61, 0x4E2D, 0x62] ∧ s'.cellAt 1 1 = ⟨[0x20], 1, ⟨0x1E⟩⟩ := by
  intro s s'
  have h := @write_char32_linear_read (fun ch => if ch = 0x4E2D then 2 else 1) ⟨3, 2⟩ (by decide) (by decide)
    [.writeGlyph ⟨0, 1⟩ 0x4E2D 2 0x1E] (by decide) ⟨0, 0⟩ (by decide) [0x61, 0x4E2D, 0x62]
  have hcut := (h.1 1 1 (by decide) (by decide)).2 (.inr (by decide))
  have hread := h.2 (by decide)
  exact ⟨hread, hcut⟩

end Corehost.ScreenBuffer
