import Corehost.Session.Transfer
import Mathlib.Tactic.Linarith
import Mathlib.Tactic.Ring

/-!
# The bounds of a screen transfer

`Transfer.Bounded` says that a handler keeps to the message: it reads inside the
declared input, it stores and replies inside the body and the declared output,
and the data it reports are the elements it has stored. `ReadFits` and
`WriteFits` are conditions on a request.

* `regionBytes_of_width`: what the size of a rectangle is when its width wraps;
* `transfers_bounded_iff`: each handler keeps to the message exactly when the
  condition holds.
-/

namespace Corehost

open Lib

/-- `apiSize` is the size of the descriptor. -/
structure Transfer.Bounded (t : Transfer) (apiSize outputSize : Nat) : Prop where
  input : ∀ a ∈ t.reads, a.Within
  body : ∀ s ∈ t.stores, s.span.Within (MSG_HEADER + apiSize) MSG_BODY
  output : ∀ s ∈ t.stores, s.span.Within (MSG_HEADER + apiSize) (MSG_HEADER + outputSize)
  reply : t.information ≤ outputSize ∧ MSG_HEADER + t.information ≤ MSG_BODY
  reported : ∀ b : Int, MSG_HEADER + apiSize ≤ b →
    (b < MSG_HEADER + t.information ↔ ∃ s ∈ t.stores, s.span.Has b)

/-- The largest reply that fits in the body. -/
def MAX_REPLY : Nat := MSG_BODY - MSG_HEADER

/-! ## The conditions -/

def StringRequest.Refused (q : StringRequest) : Prop :=
  q.inputSize.toNat < MSG_HEADER + STRING_MSG ∨ ¬ IsStringType q.stringType

/-- The output holds the descriptor and fits in the body, and is made of whole elements. -/
def StringRequest.ReadFits (q : StringRequest) : Prop :=
  q.Refused ∨ (STRING_MSG ≤ q.outputSize.toNat ∧ q.outputSize.toNat ≤ MAX_REPLY ∧
    (q.stringType = CONSOLE_ASCII ∨ q.outputSize.toNat % WORD_SIZE = 0))

/-- The output holds the descriptor. -/
def StringRequest.WriteFits (q : StringRequest) : Prop := q.Refused ∨ STRING_MSG ≤ q.outputSize.toNat

namespace RegionRequest

variable (q : RegionRequest)

def Inverted : Prop := q.charRegion.rect.left > q.charRegion.rect.right ∨ q.charRegion.rect.top > q.charRegion.rect.bottom

/-- The number of columns of the rectangle, before it is converted to `SHORT`. -/
def columns : Int := q.charRegion.rect.right - q.charRegion.rect.left + 1

/-- The rectangle has no cell in the buffer. -/
def Misses (sb : ScreenBuffer) : Prop :=
  (sb.clampRect q.charRegion.rect).left > (sb.clampRect q.charRegion.rect).right ∨
    (sb.clampRect q.charRegion.rect).top > (sb.clampRect q.charRegion.rect).bottom

/-- A rectangle of all the columns of a `SHORT` counts as empty, and one with
more than 32767 columns as too large for any message. -/
def dataBytes : Nat :=
  if q.columns = 0x10000 then 0
  else if q.columns ≤ 0x7FFF then CHAR_INFO_SIZE * (q.columns * regionHeight q.charRegion.rect).toNat
  else 2 ^ 32

/-- The output has no room for the cells, or it is the descriptor and the cells
of a rectangle inside the buffer, and fits in the body. A client that reads
bytes gets a byte in every cell that is not stored. -/
def ReadFits (sb : ScreenBuffer) : Prop :=
  q.inputSize.toNat < MSG_HEADER + REGION_MSG ∨
  (q.Inverted ∧ REGION_MSG ≤ q.outputSize.toNat) ∨
  (¬ q.Inverted ∧ q.outputSize.toNat - REGION_MSG < q.dataBytes) ∨
  (¬ q.Inverted ∧ q.outputSize.toNat = REGION_MSG + q.dataBytes ∧ q.outputSize.toNat ≤ MAX_REPLY ∧
    if q.columns = 0x10000 then q.Misses sb else q.unicode ∧ sb.clampRect q.charRegion.rect = q.charRegion.rect)

/-- The input has not all the cells, or the output holds the descriptor. A
rectangle of all the columns of a `SHORT` has to meet the buffer in no cell, or
in cells that the input has in its first row. -/
def WriteFits (sb : ScreenBuffer) : Prop :=
  q.inputSize.toNat < MSG_HEADER + REGION_MSG ∨
  (q.Inverted ∧ REGION_MSG ≤ q.outputSize.toNat) ∨
  (¬ q.Inverted ∧ q.inputSize.toNat - MSG_HEADER - REGION_MSG < q.dataBytes) ∨
  (¬ q.Inverted ∧ REGION_MSG ≤ q.outputSize.toNat ∧ (q.columns = 0x10000 → q.Misses sb ∨
    (q.unicode ∧ MSG_HEADER + REGION_MSG +
      CHAR_INFO_SIZE * ((sb.clampRect q.charRegion.rect).right - q.charRegion.rect.left + 1) ≤ q.inputSize.toNat)))

end RegionRequest

/-! ## Replies -/

section Replies

variable {sb : ScreenBuffer} {api out : Nat} {t : Transfer}

theorem bounded_refused : (Transfer.refused sb).Bounded api out :=
  { input := by simp [Transfer.refused]
    body := by simp [Transfer.refused]
    output := by simp [Transfer.refused]
    reply := by simp [Transfer.refused, MSG_HEADER, MSG_BODY]
    reported := fun b hb => by simp [Transfer.refused]; omega }

/-- A reply that is only the descriptor. -/
theorem bounded_descriptor_iff (hinfo : t.information = api) (hstores : t.stores = []) (hapi : api ≤ MAX_REPLY) :
    t.Bounded api out ↔ (∀ a ∈ t.reads, a.Within) ∧ api ≤ out := by
  have hmax : MSG_HEADER + api ≤ MSG_BODY := by simp only [MAX_REPLY, MSG_BODY, MSG_HEADER] at *; omega
  constructor
  · intro h
    exact ⟨h.input, hinfo ▸ h.reply.1⟩
  · rintro ⟨hin, hout⟩
    exact
      { input := hin
        body := by simp [hstores]
        output := by simp [hstores]
        reply := by rw [hinfo]; exact ⟨hout, hmax⟩
        reported := fun b hb => by rw [hinfo, hstores]; simp; omega }

theorem bounded_onlyRegion_iff (rect : SmallRect) :
    (Transfer.onlyRegion rect sb).Bounded REGION_MSG out ↔ REGION_MSG ≤ out :=
  (bounded_descriptor_iff rfl rfl (show REGION_MSG ≤ MAX_REPLY by decide)).trans
    (and_iff_right (by simp [Transfer.onlyRegion]))

/-- A reply with data that cover the bytes from the descriptor to `8 + api + n`. -/
theorem bounded_data_iff {n : Nat} (hreads : t.reads = []) (hinfo : api ≤ t.information)
    (hcover : ∀ b : Int, (∃ s ∈ t.stores, s.span.Has b) ↔ MSG_HEADER + api ≤ b ∧ b < MSG_HEADER + api + n) :
    t.Bounded api out ↔ t.information ≤ out ∧ t.information ≤ MAX_REPLY ∧ t.information = api + n := by
  have hbody : MSG_HEADER + t.information ≤ MSG_BODY ↔ t.information ≤ MAX_REPLY := by
    simp only [MAX_REPLY, MSG_BODY, MSG_HEADER]; omega
  constructor
  · intro h
    refine ⟨h.reply.1, hbody.mp h.reply.2, ?_⟩
    have hiff : ∀ b : Int, MSG_HEADER + api ≤ b → (b < MSG_HEADER + t.information ↔ b < MSG_HEADER + api + n) :=
      fun b hb => by rw [h.reported b hb, hcover b]; simp [hb]
    have h1 := hiff (MSG_HEADER + t.information) (by omega)
    have h2 := hiff (MSG_HEADER + api + n) (by omega)
    omega
  · rintro ⟨h1, h2, h3⟩
    have hspan : ∀ s ∈ t.stores, s.span.Within (MSG_HEADER + api) (MSG_HEADER + t.information) := fun s hs b hb => by
      have := (hcover b).mp ⟨s, hs, hb⟩
      omega
    have h2' := hbody.mpr h2
    exact
      { input := by simp [hreads]
        body := fun s hs => (hspan s hs).mono (le_refl _) (by omega)
        output := fun s hs => (hspan s hs).mono (le_refl _) (by omega)
        reply := ⟨h1, h2'⟩
        reported := fun b hb => by rw [hcover b]; omega }

end Replies

/-! ## Strings -/

theorem dataCapacity_eq (out api : Nat) : dataCapacity out api = out - api := by
  unfold dataCapacity; split_ifs <;> omega

theorem length_linearCells_le (s : ScreenBuffer) (start : Coord) (n : Nat) : (s.linearCells start n).length ≤ n := by
  unfold ScreenBuffer.linearCells
  split_ifs
  · exact List.length_take_le _ _
  · exact Nat.zero_le n

theorem length_readAttrsLinear_le (s : ScreenBuffer) (start : Coord) (n : Nat) : (s.readAttrsLinear start n).length ≤ n := by
  rw [ScreenBuffer.readAttrsLinear, List.length_map]
  exact length_linearCells_le s start n

theorem length_readWcharAt_le (s : ScreenBuffer) (n : Nat) (c : Coord) (cells : Nat) :
    (s.readWcharAt n c cells).length ≤ 1 := by
  unfold ScreenBuffer.readWcharAt
  dsimp only
  split_ifs
  · simp
  · simp
  · split <;> simp

/-- Each cell gives one character at most. -/
theorem length_readWcharsLinear_le (s : ScreenBuffer) (start : Coord) (n : Nat) :
    (s.readWcharsLinear start n).length ≤ n := by
  have hsum : ∀ l : List (Coord × Nat), (l.flatMap fun p => s.readWcharAt n p.1 p.2).length ≤ l.length := by
    intro l
    induction l with
    | nil => simp
    | cons p l ih =>
      rw [List.flatMap_cons, List.length_append, List.length_cons]
      have := length_readWcharAt_le s n p.1 p.2
      omega
  refine (hsum _).trans ?_
  rw [List.length_zipIdx]
  exact length_linearCells_le s start n

theorem storeWithZeros_cover {first : Int} {e maxn : Nat} {values : List Nat} (h : values.length ≤ maxn) (b : Int) :
    (∃ s ∈ storeWithZeros first e values maxn, s.span.Has b) ↔ first ≤ b ∧ b < first + (e * maxn : Nat) := by
  have hsplit : e * maxn = e * values.length + e * (maxn - values.length) := by
    rw [← Nat.mul_add, Nat.add_sub_cancel' h]
  simp only [storeWithZeros, List.mem_cons, List.not_mem_nil, or_false, exists_eq_or_imp, exists_eq_left, Span.Has,
    Store.span, List.length_replicate, hsplit]
  push_cast
  omega

theorem readOutputString_bounded_iff (cps : CodePages) (cp : UInt32) (sb : ScreenBuffer) (q : StringRequest) :
    (apiReadOutputString cps cp sb q).Bounded STRING_MSG q.outputSize.toNat ↔ q.ReadFits := by
  rw [apiReadOutputString, StringRequest.ReadFits, StringRequest.Refused]
  by_cases h1 : q.inputSize.toNat < MSG_HEADER + STRING_MSG
  · simp [h1, bounded_refused]
  by_cases h2 : IsStringType q.stringType
  · rw [if_neg h1, if_neg (not_not.mpr h2)]
    simp only [h1, h2, not_true_eq_false, or_self, false_or]
    split_ifs with h3 h4
    · rw [bounded_data_iff rfl (by simp) (storeWithZeros_cover (length_readAttrsLinear_le _ _ _))]
      have : q.stringType ≠ CONSOLE_ASCII := by rw [h3]; decide
      simp only [this, false_or, dataCapacity_eq, WORD_SIZE, STRING_MSG]
      omega
    · have hlen : ((cps.wideCharToMultiByte cp (sb.readWcharsLinear q.coord (dataCapacity q.outputSize.toNat STRING_MSG))
          ((dataCapacity q.outputSize.toNat STRING_MSG : Int).bmod (2 ^ 32))).map UInt8.toNat).length ≤
          dataCapacity q.outputSize.toNat STRING_MSG := by
        rw [List.length_map]
        refine (cps.length_wideCharToMultiByte _ _ _).trans ?_
        rw [Int.bmod_def]
        omega
      rw [bounded_data_iff rfl (by simp) (storeWithZeros_cover hlen)]
      simp only [h4, true_or, and_true, dataCapacity_eq]
      omega
    · rw [bounded_data_iff rfl (by simp) (storeWithZeros_cover (length_readWcharsLinear_le _ _ _))]
      simp only [h4, false_or, dataCapacity_eq, WORD_SIZE, STRING_MSG]
      omega
  · rw [if_neg h1, if_pos h2]
    simp [h2, bounded_refused]

theorem writeOutputString_bounded_iff (cps : CodePages) (cw : Char32 → Int) (cp : UInt32) (sb : ScreenBuffer)
    (m : Memory) (q : StringRequest) :
    (apiWriteOutputString cps cw cp sb m q).Bounded STRING_MSG q.outputSize.toNat ↔ q.WriteFits := by
  have hmax : STRING_MSG ≤ MAX_REPLY := by decide
  rw [apiWriteOutputString, StringRequest.WriteFits, StringRequest.Refused]
  by_cases h1 : q.inputSize.toNat < MSG_HEADER + STRING_MSG
  · simp [h1, bounded_refused]
  by_cases h2 : IsStringType q.stringType
  · rw [if_neg h1, if_neg (not_not.mpr h2)]
    simp only [h1, h2, not_true_eq_false, or_self, false_or]
    split_ifs
    all_goals
      rw [bounded_descriptor_iff rfl rfl hmax]
      refine and_iff_right fun a ha => ?_
      rw [List.mem_singleton.mp ha]
      refine Span.within_iff.mpr (.inr ?_)
      dsimp only [WORD_SIZE]
      push_cast
      omega
  · rw [if_neg h1, if_pos h2]
    simp [h2, bounded_refused]

/-! ## Rectangles -/

namespace RegionRequest

variable {q : RegionRequest} {sb : ScreenBuffer}

/-- The corners of a rectangle that is not inverted. -/
structure Upright (q : RegionRequest) : Prop where
  width : 1 ≤ q.columns ∧ q.columns ≤ 0x10000
  height : 1 ≤ regionHeight q.charRegion.rect ∧ regionHeight q.charRegion.rect ≤ 0x10000

theorem upright (h : ¬ q.Inverted) : q.Upright := by
  have h1 := q.charRegion.left.le_toInt
  have h2 := q.charRegion.right.toInt_lt
  have h3 := q.charRegion.top.le_toInt
  have h4 := q.charRegion.bottom.toInt_lt
  simp only [Inverted, not_or, not_lt, CharRegion.rect] at h
  constructor <;> simp only [columns, regionHeight, CharRegion.rect] <;> omega

theorem regionWidth_of_le (hu : q.Upright) (h : q.columns ≤ 0x7FFF) : regionWidth q.charRegion.rect = q.columns :=
  i16_of_range (by have := hu.width; simp only [columns] at this; omega) (by simp only [columns] at h; omega)

theorem regionWidth_of_all (h : q.columns = 0x10000) : regionWidth q.charRegion.rect = 0 := by
  simp only [columns] at h
  rw [regionWidth, h]
  rfl

theorem left_of_all (h : q.columns = 0x10000) : q.charRegion.rect.left = -0x8000 := by
  have h1 := q.charRegion.left.le_toInt
  have h2 := q.charRegion.right.toInt_lt
  simp only [columns, CharRegion.rect] at h ⊢
  omega

theorem regionWidth_of_gt (hu : q.Upright) (h : 0x7FFF < q.columns) :
    regionWidth q.charRegion.rect = q.columns - 0x10000 := by
  have := hu.width
  simp only [columns] at *
  rw [regionWidth, i16, Int.bmod_def]
  omega

/-- The cells of the rectangle, by its width. -/
theorem regionBytes_of_width (hu : q.Upright) :
    (q.columns ≤ 0x7FFF ∨ q.columns = 0x10000 → regionBytes q.charRegion.rect = q.dataBytes ∧
      CHAR_INFO_SIZE * ((sizeT (regionWidth q.charRegion.rect) * sizeT (regionHeight q.charRegion.rect)) % 2 ^ 64) =
        q.dataBytes) ∧
    (0x7FFF < q.columns ∧ q.columns ≠ 0x10000 → 2 ^ 32 ≤ regionBytes q.charRegion.rect) := by
  obtain ⟨hw1, hw2⟩ := hu.width
  obtain ⟨hh1, hh2⟩ := hu.height
  refine ⟨?_, ?_⟩
  · rintro (h | h)
    · rw [regionBytes, regionWidth_of_le hu h, dataBytes, if_neg (by omega), if_pos h]
      obtain ⟨w, hw⟩ := Int.eq_ofNat_of_zero_le (show 0 ≤ q.columns by omega)
      obtain ⟨r, hr⟩ := Int.eq_ofNat_of_zero_le (show 0 ≤ regionHeight q.charRegion.rect by omega)
      rw [hr] at hh1 hh2
      rw [hw] at h hw1
      rw [hw, hr]
      have hle : w * r ≤ 0x7FFF * 0x10000 := Nat.mul_le_mul (by omega) (by omega)
      rw [sizeT_natCast (by omega), sizeT_natCast (by omega), ← Int.natCast_mul, Int.toNat_natCast]
      simp only [CHAR_INFO_SIZE]
      omega
    · rw [regionBytes, regionWidth_of_all h, dataBytes, if_pos h]
      have : sizeT 0 = 0 := rfl
      simp [this]
  · rintro ⟨h, h'⟩
    rw [regionBytes, regionWidth_of_gt hu h]
    obtain ⟨d, hd⟩ := Int.eq_ofNat_of_zero_le (show 0 ≤ 0x10000 - q.columns by omega)
    obtain ⟨r, hr⟩ := Int.eq_ofNat_of_zero_le (show 0 ≤ regionHeight q.charRegion.rect by omega)
    rw [hr] at hh1 hh2 ⊢
    have hle : d * r ≤ 0x8000 * 0x10000 := Nat.mul_le_mul (by omega) (by omega)
    have hpos : 1 * 1 ≤ d * r := Nat.mul_le_mul (by omega) (by omega)
    have hs : sizeT (q.columns - 0x10000) = 2 ^ 64 - d := by unfold sizeT; omega
    rw [hs, sizeT_natCast (by omega)]
    have hmul : (2 ^ 64 - d) * r * CHAR_INFO_SIZE = 2 ^ 64 * (4 * r - 1) + (2 ^ 64 - 4 * (d * r)) := by
      zify [show d ≤ 2 ^ 64 by omega, show 1 ≤ 4 * r by omega, show 4 * (d * r) ≤ 2 ^ 64 by omega]
      simp only [CHAR_INFO_SIZE]
      push_cast
      ring
    rw [hmul, Nat.mul_add_mod, Nat.mod_eq_of_lt (by omega)]
    omega

/-- A buffer of `n` bytes is too small for the cells. -/
theorem regionBytes_gt_iff (hu : q.Upright) {n : Nat} (hn : n < 2 ^ 32) :
    n < regionBytes q.charRegion.rect ↔ n < q.dataBytes := by
  obtain ⟨h1, h2⟩ := regionBytes_of_width hu
  by_cases h : q.columns ≤ 0x7FFF ∨ q.columns = 0x10000
  · rw [(h1 h).1]
  · have := h2 (by omega)
    rw [dataBytes, if_neg (by omega), if_neg (by omega)]
    omega

/-! ### The rows of the clipped rectangle -/

/-- The clipped rectangle lies in the rectangle. -/
structure Clipped (q : RegionRequest) (c : SmallRect) : Prop where
  left : q.charRegion.rect.left ≤ c.left
  right : c.left ≤ c.right ∧ c.right ≤ q.charRegion.rect.right
  top : q.charRegion.rect.top ≤ c.top
  bottom : c.top ≤ c.bottom ∧ c.bottom ≤ q.charRegion.rect.bottom

theorem clipped (h : ¬ q.Misses sb) : q.Clipped (sb.clampRect q.charRegion.rect) := by
  simp only [Misses, not_or, not_lt] at h
  refine ⟨?_, ⟨h.1, ?_⟩, ?_, ⟨h.2, ?_⟩⟩ <;> simp only [ScreenBuffer.clampRect] <;> split_ifs <;> omega

theorem dataBytes_eq (hu : q.Upright) (hw : q.columns ≤ 0x7FFF) :
    (q.dataBytes : Int) = (CHAR_INFO_SIZE : Nat) * (q.columns * regionHeight q.charRegion.rect) := by
  have hpos : 0 ≤ q.columns * regionHeight q.charRegion.rect :=
    mul_nonneg (by have := hu.width; omega) (by have := hu.height; omega)
  rw [dataBytes, if_neg (by omega), if_pos hw]
  push_cast
  rw [Int.toNat_of_nonneg hpos]

theorem dataBytes_pos (hu : q.Upright) (hw : q.columns ≤ 0x7FFF) : 0 < q.dataBytes := by
  have h := dataBytes_eq hu hw
  have hpos : 0 < q.columns * regionHeight q.charRegion.rect :=
    mul_pos (by have := hu.width; omega) (by have := hu.height; omega)
  simp only [CHAR_INFO_SIZE] at h
  omega

variable {c : SmallRect}

theorem mem_regionRows {y : Int} : y ∈ regionRows c ↔ c.top ≤ y ∧ y ≤ c.bottom := by
  simp only [regionRows, List.mem_map, List.mem_range]
  constructor
  · rintro ⟨k, hk, rfl⟩
    omega
  · intro hy
    exact ⟨(y - c.top).toNat, by omega, by omega⟩

theorem regionRowSpan_within (hc : q.Clipped c) (hw : q.columns ≤ 0x7FFF) (hu : q.Upright) (base : Int) {y : Int}
    (hy : y ∈ regionRows c) : (regionRowSpan base q.charRegion.rect c y).Within base (base + q.dataBytes) := by
  have hr := mem_regionRows.mp hy
  have hl := hc.left
  have hri := hc.right
  have ht := hc.top
  have hb := hc.bottom
  rw [dataBytes_eq hu hw, regionRowSpan, regionWidth_of_le hu hw]
  refine rowSpan_within (by omega) ?_ (by omega) ?_
  · simp only [regionColumns, columns]
    omega
  · simp only [regionHeight]
    omega

/-- The rows of the clipped rectangle have all the data only when nothing has been clipped. -/
theorem regionRowSpan_cover (hc : q.Clipped c) (hw : q.columns ≤ 0x7FFF) (hu : q.Upright) (base : Int) :
    (∀ b, base ≤ b → b < base + q.dataBytes → ∃ y ∈ regionRows c, (regionRowSpan base q.charRegion.rect c y).Has b) ↔
      c = q.charRegion.rect := by
  have hl := hc.left
  have hri := hc.right
  have ht := hc.top
  have hb := hc.bottom
  have hwid := hu.width
  have hhei := hu.height
  have hrow : ∀ b, (∃ y ∈ regionRows c, (regionRowSpan base q.charRegion.rect c y).Has b) ↔
      ∃ k < (c.bottom - c.top + 1).toNat, (rowSpan base CHAR_INFO_SIZE q.columns (c.left - q.charRegion.rect.left)
        (c.top - q.charRegion.rect.top + (k : Nat)) (regionColumns c)).Has b := by
    intro b
    simp only [regionRows, List.mem_map, List.mem_range, regionRowSpan, regionWidth_of_le hu hw]
    constructor
    · rintro ⟨y, ⟨k, hk, rfl⟩, hb⟩
      exact ⟨k, hk, by rwa [show c.top - q.charRegion.rect.top + (k : Int) = c.top + k - q.charRegion.rect.top by ring]⟩
    · rintro ⟨k, hk, hb⟩
      exact ⟨c.top + k, ⟨k, hk, rfl⟩,
        by rwa [show c.top + (k : Int) - q.charRegion.rect.top = c.top - q.charRegion.rect.top + k by ring]⟩
  simp only [hrow, dataBytes_eq hu hw]
  rw [rowSpan_cover (by decide) (by omega) (by omega) (by omega) ?_ (by omega) ?_]
  · constructor
    · rintro ⟨h1, h2, h3, h4⟩
      simp only [regionColumns, columns, regionHeight] at h2 h4
      have : c = ⟨c.left, c.top, c.right, c.bottom⟩ := rfl
      rw [this, show q.charRegion.rect = ⟨q.charRegion.rect.left, q.charRegion.rect.top, q.charRegion.rect.right,
        q.charRegion.rect.bottom⟩ from rfl, SmallRect.mk.injEq]
      omega
    · rintro rfl
      simp only [regionColumns, columns, regionHeight]
      omega
  · simp only [regionColumns, columns]
    omega
  · simp only [regionHeight]
    omega

end RegionRequest

theorem length_exportAnsi (cps : CodePages) (cp : UInt32) : ∀ cells : List CharInfo,
    (exportAnsi cps cp cells).length = cells.length
  | [] => rfl
  | [src] => by
    rw [exportAnsi]
    split_ifs <;> simp [exportAnsi]
  | src :: trail :: rest => by
    rw [exportAnsi]
    dsimp only
    have h1 := length_exportAnsi cps cp (trail :: rest)
    have h2 := length_exportAnsi cps cp rest
    split_ifs <;> simp_all

/-- The second byte of no cell is stored. -/
theorem storeAnsi_has {b : Int} : ∀ {cells : List (UInt8 × UInt16)} {first : Int},
    (∃ s ∈ storeAnsi first cells, s.span.Has b) → (b - first) % CHAR_INFO_SIZE ≠ 1
  | [], _, h => by
    obtain ⟨s, hs, -⟩ := h
    cases hs
  | (ch, attributes) :: rest, first, h => by
    obtain ⟨s, hs, hb⟩ := h
    rw [storeAnsi, List.mem_cons, List.mem_cons] at hs
    rcases hs with rfl | rfl | hs
    · simp only [Store.span, Span.Has, List.length_singleton, CHAR_INFO_SIZE] at hb ⊢
      omega
    · simp only [Store.span, Span.Has, List.length_singleton, WORD_SIZE, CHAR_INFO_SIZE] at hb ⊢
      omega
    · have hrest := storeAnsi_has ⟨s, hs, hb⟩
      simp only [CHAR_INFO_SIZE] at hrest ⊢
      omega

section ExportRow

variable {cps : CodePages} {cp : UInt32} {sb : ScreenBuffer} {orig clipped : SmallRect} {y : Int}

theorem exportRow_unicode (b : Int) : (∃ s ∈ exportRow cps cp sb true orig clipped y, s.span.Has b) ↔
    (regionRowSpan (MSG_HEADER + REGION_MSG) orig clipped y).Has b := by
  unfold exportRow
  simp only [if_true, List.mem_singleton, exists_eq_left, Store.span, List.length_map, List.length_range]
  rfl

/-- With or without Unicode, a row is stored from its first byte on. -/
theorem exportRow_first (unicode : Bool) (hn : 0 < regionColumns clipped) :
    ∃ s ∈ exportRow cps cp sb unicode orig clipped y,
      s.span.Has (regionRowSpan (MSG_HEADER + REGION_MSG) orig clipped y).first := by
  cases unicode with
  | true =>
    refine (exportRow_unicode _).mpr ⟨le_refl _, ?_⟩
    simp only [regionRowSpan, rowSpan, CHAR_INFO_SIZE]
    omega
  | false =>
    unfold exportRow
    dsimp only
    rw [if_neg Bool.false_ne_true]
    generalize hcells : exportAnsi cps cp _ = cells
    have hlength : cells.length = regionColumns clipped := by
      rw [← hcells, length_exportAnsi, List.length_map, List.length_range]
    obtain ⟨cell, rest, rfl⟩ := List.exists_cons_of_length_pos (hlength ▸ hn)
    exact ⟨_, List.mem_cons_self, le_refl _, lt_add_one _⟩

/-- Without Unicode the second byte of no cell of the message is stored. -/
theorem exportRow_ansi {b : Int} (h : ∃ s ∈ exportRow cps cp sb false orig clipped y, s.span.Has b) :
    (b - (MSG_HEADER + REGION_MSG)) % CHAR_INFO_SIZE ≠ 1 := by
  unfold exportRow at h
  dsimp only at h
  rw [if_neg Bool.false_ne_true] at h
  have hb := storeAnsi_has h
  simp only [regionRowSpan, rowSpan, CHAR_INFO_SIZE] at hb ⊢
  omega

end ExportRow

open RegionRequest in
theorem readConsoleOutput_bounded_iff (cps : CodePages) (cp : UInt32) (sb : ScreenBuffer) (q : RegionRequest) :
    (apiReadConsoleOutput cps cp sb q).Bounded REGION_MSG q.outputSize.toNat ↔ q.ReadFits sb := by
  rw [apiReadConsoleOutput, RegionRequest.ReadFits]
  by_cases h1 : q.inputSize.toNat < MSG_HEADER + REGION_MSG
  · simp [h1, bounded_refused]
  by_cases h2 : q.Inverted
  · rw [if_neg h1, if_pos (c := _ ∨ _) h2, bounded_onlyRegion_iff]
    simp [h1, h2]
  rw [if_neg h1, if_neg (c := _ ∨ _) h2]
  simp only [h1, h2, not_false_eq_true, false_and, true_and, false_or]
  have hu := upright h2
  have hout := q.outputSize.toNat_lt
  by_cases h3 : q.outputSize.toNat - REGION_MSG < q.dataBytes
  · rw [if_pos]
    · simp [h3, bounded_refused]
    · rw [dataCapacity_eq]
      exact (regionBytes_gt_iff hu (by omega)).mpr h3
  rw [if_neg (by rw [dataCapacity_eq]; exact fun h => h3 ((regionBytes_gt_iff hu (by omega)).mp h)), dataCapacity_eq]
  simp only [h3, false_or]
  have hcols : q.columns ≤ 0x7FFF ∨ q.columns = 0x10000 := by
    by_contra hne
    rw [dataBytes, if_neg (by omega), if_neg (by omega)] at h3
    omega
  by_cases h4 : q.Misses sb
  · rw [if_pos (c := _ ∨ _) h4, bounded_data_iff (n := 0) rfl (by simp) (fun b => by simp)]
    rcases hcols with hle | hall
    · have hpos := dataBytes_pos hu hle
      rw [if_neg (by omega)]
      refine ⟨fun h => by dsimp only at h; omega, fun h => absurd h4 ?_⟩
      rw [Misses, h.2.2.2]
      exact h2
    · rw [dataBytes, if_pos hall, if_pos hall]
      simp only [h4, and_true, REGION_MSG, MAX_REPLY]
      omega
  · rw [if_neg (c := _ ∨ _) h4]
    have hc := clipped h4
    have hstore (b : Int) : (∃ s ∈ (regionRows (sb.clampRect q.charRegion.rect)).flatMap
        (exportRow cps cp sb q.unicode q.charRegion.rect (sb.clampRect q.charRegion.rect)), s.span.Has b) ↔
        ∃ y ∈ regionRows (sb.clampRect q.charRegion.rect),
          ∃ s ∈ exportRow cps cp sb q.unicode q.charRegion.rect (sb.clampRect q.charRegion.rect) y, s.span.Has b := by
      simp only [List.mem_flatMap]
      exact ⟨fun ⟨s, ⟨y, hy, hs⟩, hb⟩ => ⟨y, hy, s, hs, hb⟩, fun ⟨y, hy, s, hs, hb⟩ => ⟨s, ⟨y, hy, hs⟩, hb⟩⟩
    rcases hcols with hle | hall
    · rw [if_neg (by omega)]
      have hpos := dataBytes_pos hu hle
      cases hunicode : q.unicode with
      | true =>
        simp only [hunicode, exportRow_unicode] at hstore
        by_cases h5 : sb.clampRect q.charRegion.rect = q.charRegion.rect
        · rw [bounded_data_iff (n := q.dataBytes) rfl (by simp) fun b => ?_]
          · simp only [h5, and_true]
            omega
          · rw [hstore]
            constructor
            · rintro ⟨y, hy, hb⟩
              exact regionRowSpan_within hc hle hu _ hy b hb
            · rintro ⟨hb, hb'⟩
              exact (regionRowSpan_cover hc hle hu _).mpr h5 b hb hb'
        · refine iff_of_false (fun h => h5 ((regionRowSpan_cover hc hle hu (MSG_HEADER + REGION_MSG)).mp fun b hb hb' => ?_))
            fun h => h5 h.2.2.2
          exact (hstore b).mp ((h.reported b hb).mp (by dsimp only; push_cast; omega))
      | false =>
        -- The second byte of the first cell is in the reply.
        refine iff_of_false (fun h => ?_) fun h => Bool.false_ne_true h.2.2.1
        have hwhole := dataBytes_eq hu hle
        have hreply := (h.reported (MSG_HEADER + REGION_MSG + 1) (by omega)).mp
          (by dsimp only; simp only [CHAR_INFO_SIZE] at hwhole; omega)
        rw [hunicode] at hstore
        obtain ⟨y, -, hs⟩ := (hstore _).mp hreply
        exact exportRow_ansi hs (by simp only [CHAR_INFO_SIZE]; omega)
    · rw [if_pos hall]
      refine iff_of_false (fun h => ?_) fun h => h4 h.2.2
      -- The first cell of the first row lies behind the body.
      have hy : (sb.clampRect q.charRegion.rect).top ∈ regionRows (sb.clampRect q.charRegion.rect) :=
        mem_regionRows.mpr ⟨le_refl _, hc.bottom.1⟩
      have hn : 0 < regionColumns (sb.clampRect q.charRegion.rect) := by
        have := hc.right
        simp only [regionColumns]
        omega
      obtain ⟨s, hs, hb⟩ := (hstore _).mpr ⟨_, hy, exportRow_first q.unicode hn⟩
      have hbody := h.body s hs _ hb
      have hleft : 0 ≤ (sb.clampRect q.charRegion.rect).left := by
        simp only [ScreenBuffer.clampRect]; split_ifs <;> omega
      rw [regionRowSpan, regionWidth_of_all hall, rowSpan, left_of_all hall] at hbody
      simp only [CHAR_INFO_SIZE, MSG_BODY, MSG_HEADER, REGION_MSG] at hbody
      omega

/-! ### Writing a rectangle -/

section Write

open RegionRequest

variable {q : RegionRequest} {sb : ScreenBuffer}

/-- The cells that WriteConsoleOutput converts are in the input. -/
theorem importSource_within (hu : q.Upright) (hcols : q.columns ≤ 0x7FFF ∨ q.columns = 0x10000)
    (h : MSG_HEADER + REGION_MSG + q.dataBytes ≤ q.inputSize.toNat) :
    ∀ a ∈ (importSource q ((sizeT (regionWidth q.charRegion.rect) * sizeT (regionHeight q.charRegion.rect)) % 2 ^ 64)).1,
      a.Within := by
  intro a ha
  unfold importSource at ha
  split_ifs at ha
  · simp at ha
  · rw [List.mem_singleton.mp ha, Access.Within, ((regionBytes_of_width hu).1 hcols).2]
    exact Span.within_iff.mpr (.inr (by dsimp only; omega))

/-- The rows of a rectangle with at most 32767 columns are in their source. -/
theorem importRows_within (hu : q.Upright) (hle : q.columns ≤ 0x7FFF) {c : SmallRect} (hc : q.Clipped c)
    (h : MSG_HEADER + REGION_MSG + q.dataBytes ≤ q.inputSize.toNat) {y : Int} (hy : y ∈ regionRows c) :
    let source := importSource q ((sizeT (regionWidth q.charRegion.rect) * sizeT (regionHeight q.charRegion.rect)) % 2 ^ 64)
    Access.Within ⟨regionRowSpan source.2.1 q.charRegion.rect c y, source.2.2⟩ := by
  unfold importSource
  rw [((regionBytes_of_width hu).1 (.inl hle)).2]
  split_ifs
  · exact (regionRowSpan_within hc hle hu _ hy).mono (by dsimp only; omega) (by dsimp only; omega)
  · exact (regionRowSpan_within hc hle hu _ hy).mono (by dsimp only; omega) (by dsimp only; omega)

/-- The rows of a rectangle of all columns are at one place. They are in the
source when the message has so many cells and they are not converted. -/
theorem importRows_all (hall : q.columns = 0x10000) {c : SmallRect} (hc : q.Clipped c) (hleft : 0 ≤ c.left) (y : Int) :
    let source := importSource q ((sizeT (regionWidth q.charRegion.rect) * sizeT (regionHeight q.charRegion.rect)) % 2 ^ 64)
    Access.Within ⟨regionRowSpan source.2.1 q.charRegion.rect c y, source.2.2⟩ ↔
      q.unicode ∧ MSG_HEADER + REGION_MSG + CHAR_INFO_SIZE * (c.right - q.charRegion.rect.left + 1) ≤ q.inputSize.toNat := by
  have hn := hc.right
  have hz : sizeT 0 = 0 := rfl
  intro source
  rw [show Access.Within ⟨regionRowSpan source.2.1 q.charRegion.rect c y, source.2.2⟩ ↔ _ from Span.within_iff, left_of_all hall]
  simp only [source, importSource, regionRowSpan, rowSpan, regionWidth_of_all hall, left_of_all hall, hz, regionColumns,
    CHAR_INFO_SIZE, MSG_HEADER, REGION_MSG]
  split_ifs with hu
  · simp only [hu, true_and]
    omega
  · simp only [hu, false_and, iff_false, not_or, not_and, not_le, Nat.zero_mul, Nat.zero_mod, Bool.false_eq_true]
    omega

theorem writeConsoleOutput_bounded_iff (cps : CodePages) (cp : UInt32) (sb : ScreenBuffer) (m : Memory) (q : RegionRequest) :
    (apiWriteConsoleOutput cps cp sb m q).Bounded REGION_MSG q.outputSize.toNat ↔ q.WriteFits sb := by
  have hmax : REGION_MSG ≤ MAX_REPLY := by decide
  rw [apiWriteConsoleOutput, RegionRequest.WriteFits]
  by_cases h1 : q.inputSize.toNat < MSG_HEADER + REGION_MSG
  · simp [h1, bounded_refused]
  by_cases h2 : q.Inverted
  · rw [if_neg h1, if_pos (c := _ ∨ _) h2, bounded_onlyRegion_iff]
    simp [h1, h2]
  rw [if_neg h1, if_neg (c := _ ∨ _) h2]
  simp only [h1, h2, not_false_eq_true, false_and, true_and, false_or]
  have hu := upright h2
  have hin := q.inputSize.toNat_lt
  by_cases h3 : q.inputSize.toNat - MSG_HEADER - REGION_MSG < q.dataBytes
  · rw [if_pos ((regionBytes_gt_iff hu (by omega)).mpr h3)]
    simp [h3, bounded_refused]
  rw [if_neg fun h => h3 ((regionBytes_gt_iff hu (by omega)).mp h)]
  simp only [h3, false_or]
  have hcols : q.columns ≤ 0x7FFF ∨ q.columns = 0x10000 := by
    by_contra hne
    rw [dataBytes, if_neg (by omega), if_neg (by omega)] at h3
    omega
  have hsrc := importSource_within hu hcols (by omega)
  by_cases h4 : q.Misses sb
  · rw [if_pos (c := _ ∨ _) h4, bounded_descriptor_iff rfl rfl hmax, and_iff_right hsrc]
    simp [h4]
  · rw [if_neg (c := _ ∨ _) h4, bounded_descriptor_iff rfl rfl hmax, and_comm]
    have hc := clipped h4
    have hleft : 0 ≤ (sb.clampRect q.charRegion.rect).left := by
      simp only [ScreenBuffer.clampRect]; split_ifs <;> omega
    refine and_congr_right fun _ => ?_
    simp only [List.mem_append, or_imp, forall_and, List.mem_map, forall_exists_index, and_imp, forall_apply_eq_imp_iff₂]
    rw [and_iff_right hsrc]
    rcases hcols with hle | hall
    · exact iff_of_true (fun y hy => importRows_within hu hle hc (by omega) hy) fun h => absurd h (by omega)
    · have hy : (sb.clampRect q.charRegion.rect).top ∈ regionRows (sb.clampRect q.charRegion.rect) :=
        mem_regionRows.mpr ⟨le_refl _, hc.bottom.1⟩
      constructor
      · exact fun h _ => .inr ((importRows_all hall hc hleft _).mp (h _ hy))
      · exact fun h y _ => (importRows_all hall hc hleft y).mpr ((h hall).resolve_left h4)

end Write

/-! ## The four handlers -/

/-- For every request, screen and memory, a screen transfer keeps to the declared
sizes of its message, to the body and to the bytes it has stored exactly when the request fits. -/
theorem transfers_bounded_iff (cps : CodePages) (cw : Char32 → Int) (cp : UInt32) (sb : ScreenBuffer) (m : Memory) :
    (∀ q : StringRequest,
      ((apiReadOutputString cps cp sb q).Bounded STRING_MSG q.outputSize.toNat ↔ q.ReadFits) ∧
      ((apiWriteOutputString cps cw cp sb m q).Bounded STRING_MSG q.outputSize.toNat ↔ q.WriteFits)) ∧
    ∀ q : RegionRequest,
      ((apiReadConsoleOutput cps cp sb q).Bounded REGION_MSG q.outputSize.toNat ↔ q.ReadFits sb) ∧
      ((apiWriteConsoleOutput cps cp sb m q).Bounded REGION_MSG q.outputSize.toNat ↔ q.WriteFits sb) :=
  ⟨fun q => ⟨readOutputString_bounded_iff cps cp sb q, writeOutputString_bounded_iff cps cw cp sb m q⟩,
    fun q => ⟨readConsoleOutput_bounded_iff cps cp sb q, writeConsoleOutput_bounded_iff cps cp sb m q⟩⟩

/-- Conversions of a code page with ASCII characters only. -/
def asciiCodePages : CodePages where
  wideCharToMultiByte _ text n :=
    if text.length ≤ n.toNat then text.map fun c : Nat => if c < 0x80 then c.toUInt8 else 0x3F else []
  length_wideCharToMultiByte _ text n := by
    split_ifs with h
    · rwa [List.length_map]
    · simp
  multiByteToWideChar _ bytes := (bytes.getD 0 0x20).toNat
  isDBCSLeadByteEx _ _ := false
  convertAnsiToU32 _ bytes := bytes.map UInt8.toNat
  convertUtf16ToU32 text := text
  u32ToAnsiExactLen _ text := text.length

/-- ReadConsoleOutputAttribute for 4000 cells: the attributes do not fit in the body. -/
theorem attributes_read_past_body :
    ¬ (apiReadOutputString asciiCodePages 0 (.ofSize ⟨80, 25⟩)
      { inputSize := 20, outputSize := 8012, x := 0, y := 0, stringType := CONSOLE_ATTRIBUTE }).Bounded STRING_MSG 8012 := by
  rw [show (8012 : Nat) = (StringRequest.outputSize ⟨20, 8012, 0, 0, CONSOLE_ATTRIBUTE⟩).toNat from rfl,
    readOutputString_bounded_iff]
  rintro (h | h)
  · revert h; simp only [StringRequest.Refused]; decide
  · exact absurd h.2.1 (by decide)

end Corehost
