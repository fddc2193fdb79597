import Corehost.Row.CopyEdges
import Corehost.Screen.Linear
import Corehost.Screen.Output

/-!
# Inserted and deleted characters

The model of `apply_terminal_insert_characters` and
`apply_terminal_delete_characters` (`api_handlers.hpp`): columns behind the
cursor are copied inside their row, and the columns that they leave are cleared.

* `ColumnsMoved`: the row with the columns moved, where a half that cannot be
  moved whole is a space;
* `columnsMoved_insert_iff`, `columnsMoved_delete_iff`: when the row is that;
* `insert_delete_characters_iff`: the same for the two functions.
-/

namespace Corehost

open Lib Lib.Strip ScreenBufferRow
open ScreenBuffer (fillColumns cellAt_fillColumns)

namespace Console

/-- `clear_terminal_line_range`. -/
def clearTerminalLineRange (sb : ScreenBuffer) (y left right : Int) (attr : UInt16) : ScreenBuffer :=
  (List.range (right - left + 1).toNat).foldl (fun sb (i : Nat) => sb.clearCell ⟨left + i, y⟩ attr) sb

/-- `count` is `msg.payload.count.value`. -/
def applyTerminalInsertCharacters (c : Console) (count : Int) : Console :=
  let view := c.sb.viewport.rect
  let y := c.state.position.y
  if y < view.top ∨ y > view.bottom then c
  else
    let x := clamp c.state.position.x view.left view.right
    let available := i16 (view.right - x + 1)
    let count := min available (i16 (max 1 count))
    let saved := c.sb.row y
    let copyCount := i16 (available - count)
    let sb := if copyCount > 0 then
        c.sb.modifyRow y fun r => r.copyFrom saved (u16 x.toNat) (u16 (x + count).toNat) (u16 copyCount.toNat)
      else c.sb
    { c with sb := clearTerminalLineRange sb y x (i16 (x + count - 1)) c.state.defaultAttributes }

def applyTerminalDeleteCharacters (c : Console) (count : Int) : Console :=
  let view := c.sb.viewport.rect
  let y := c.state.position.y
  if y < view.top ∨ y > view.bottom then c
  else
    let x := clamp c.state.position.x view.left view.right
    let available := i16 (view.right - x + 1)
    let count := min available (i16 (max 1 count))
    let saved := c.sb.row y
    let copyCount := i16 (available - count)
    let sb := if copyCount > 0 then
        c.sb.modifyRow y fun r => r.copyFrom saved (u16 (x + count).toNat) (u16 x.toNat) (u16 copyCount.toNat)
      else c.sb
    { c with sb := clearTerminalLineRange sb y (i16 (view.right - count + 1)) view.right c.state.defaultAttributes }

end Console

namespace ScreenBufferRow

variable {r r' : ScreenBufferRow} {w x n m source dest behind : Nat} {attr : UInt16}

/-! ## Moved columns -/

/-- Of the columns from `x` to `behind`, the `m` from `dest` on hold the old
columns from `source` on, and the others are blank. A half whose glyph does not
move whole becomes a space, as does the rest of a glyph that is cut outside. -/
structure ColumnsMoved (r r' : ScreenBufferRow) (w x behind source dest m : Nat) (attr : UInt16) : Prop where
  moved : ∀ i < m,
    if i = 0 ∧ (r.cellAt (source + i)).cols = 0 ∨ i + 1 = m ∧ (r.cellAt (source + i)).cols = 2 then
      (r'.cellAt (dest + i)).glyph = [0x20] ∧ (r'.cellAt (dest + i)).cols = 1
    else r'.cellAt (dest + i) = r.cellAt (source + i)
  blank : ∀ c, x ≤ c ∧ c < behind → ¬ (dest ≤ c ∧ c < dest + m) → r'.cellAt c = ⟨[0x20], 1, .ofWord attr⟩
  outside : ∀ c < w, c < x ∨ behind ≤ c → r'.cellAt c =
    if c + 1 = x ∧ (r.cellAt c).cols = 2 ∨ c = behind ∧ (r.cellAt c).cols = 0 then (r.cellAt c).cut else r.cellAt c

/-- Both halves of every glyph that moves have one attribute. -/
def SameAttrs (r : ScreenBufferRow) (source m : Nat) : Prop :=
  ∀ i < m, 0 < i → (r.cellAt (source + i)).cols = 0 → (r.cellAt (source + i)).attr = (r.cellAt (source + i - 1)).attr

instance (r : ScreenBufferRow) (source m : Nat) : Decidable (SameAttrs r source m) :=
  inferInstanceAs (Decidable (∀ i < m, _))

/-- A cell that shows a space in one column. -/
def Cell.IsSpace (cell : Cell) : Prop := cell.glyph = [0x20] ∧ cell.cols = 1

instance (cell : Cell) : Decidable cell.IsSpace := inferInstanceAs (Decidable (_ ∧ _))

/-- What a row has to be like for the insertion of `n` columns at `x`, in front of `m` more columns. -/
structure InsertExact (r : ScreenBufferRow) (w x n m : Nat) : Prop where
  /-- The cursor is on a second half: the column that would get it is cut off or a space. -/
  first : 0 < m → (r.cellAt x).cols = 0 → Cell.IsSpace (r.cellAt (x + n)) ∨ (r.cellAt (x + n)).cols = 0 ∨
    (r.cellAt (x + n)).cols = 2 ∧ 1 < m
  /-- The last column that moves is no first half, unless the row ends there and the glyph is a space. -/
  last : 0 < m → (r.cellAt (x + m - 1)).cols = 2 → x + n + m = w ∧ (r.cellAt (x + m - 1)).glyph = [0x20]
  attrs : SameAttrs r x m

/-- What a row has to be like for the deletion of `n` columns at `x`, in front of `m` more columns. -/
structure DeleteExact (r : ScreenBufferRow) (x n m : Nat) : Prop where
  /-- The first column that moves is a second half: the cursor is on a first half or a space. -/
  first : 0 < m → (r.cellAt (x + n)).cols = 0 → Cell.IsSpace (r.cellAt x) ∨ (r.cellAt x).cols = 2
  attrs : SameAttrs r (x + n) m

def insertColumns (attr : UInt16) (x n m : Nat) (r : ScreenBufferRow) : ScreenBufferRow :=
  fillColumns 0x20 attr x (x + n - 1) (r.copyFrom r x (x + n) m)

def deleteColumns (attr : UInt16) (x n m : Nat) (r : ScreenBufferRow) : ScreenBufferRow :=
  fillColumns 0x20 attr (x + m : Nat) ((x + m : Nat) + n - 1) (r.copyFrom r (x + n) x m)

variable (r source m) in
theorem copiedCell_lead (room : Nat) {i : Nat} (h2 : (r.cellAt (source + i)).cols = 2) (hi : i + 1 = m) :
    (copiedCell r source m room i).glyph = (r.cellAt (source + i)).glyph ∧
      (copiedCell r source m room i).cols = if m = room then 1 else 2 := by
  unfold copiedCell
  dsimp only
  rw [if_neg (by omega)]
  by_cases hroom : m = room
  · rw [if_pos ⟨h2, hi, hroom⟩, if_pos hroom]
    exact ⟨rfl, rfl⟩
  · rw [if_neg (fun hh => hroom hh.2.2), if_neg hroom]
    exact ⟨rfl, h2⟩

theorem copiedCell_cols_ne {room i : Nat} (h : (r.cellAt (source + i)).cols ≠ 0) :
    (copiedCell r source m room i).cols ≠ 0 := by
  unfold copiedCell
  dsimp only
  rw [if_neg h]
  split_ifs
  · exact Nat.one_ne_zero
  · exact h

theorem cellAt_insertColumns (hr : r.ShowsSome w) (hn : 0 < n) (hfit : x + n + m ≤ w) {c : Nat} (hc : c < w) :
    (r.insertColumns attr x n m).cellAt c =
      if x ≤ c ∧ c < x + n then ⟨[0x20], 1, .ofWord attr⟩
      else if c + 1 = x ∧ ((r.copyFrom r x (x + n) m).cellAt c).cols = 2 ∨
          c = x + n ∧ ((r.copyFrom r x (x + n) m).cellAt c).cols = 0 then ((r.copyFrom r x (x + n) m).cellAt c).cut
      else (r.copyFrom r x (x + n) m).cellAt c :=
  cellAt_fillColumns (hr.copyFrom hr x (x + n) m) (by omega) hn hc

section Insert

variable (hr : r.ShowsSome w) (hw : w ≤ 0x7FFF) (hn : 0 < n) (hfit : x + n + m ≤ w)

include hr hw hn hfit

variable (attr) in
/-- A column that moves to the right. -/
theorem cellAt_insertColumns_mem {i : Nat} (hi : i < m) (h : i = 0 → (r.cellAt x).cols ≠ 0) :
    (r.insertColumns attr x n m).cellAt (x + n + i) = copiedCell r x m (w - (x + n)) i := by
  have hmid := cellAt_copyFrom_mem hr hr hw (show x + m ≤ w by omega) (show x + n + m ≤ w by omega) hi h
  rw [cellAt_insertColumns hr hn hfit (by omega), if_neg (by omega), hmid, if_neg]
  rintro (⟨h1, -⟩ | ⟨h1, h0⟩)
  · omega
  · have hi0 : i = 0 := by omega
    subst hi0
    exact copiedCell_cols_ne (h rfl) h0

variable (attr) in
/-- The first of them, when the cursor is on a second half. -/
theorem cellAt_insertColumns_first (hm : 0 < m) (h0 : (r.cellAt x).cols = 0) :
    Cell.IsSpace ((r.insertColumns attr x n m).cellAt (x + n)) ↔
      Cell.IsSpace (r.cellAt (x + n)) ∨ (r.cellAt (x + n)).cols = 0 ∨ (r.cellAt (x + n)).cols = 2 ∧ 1 < m := by
  have hmid := cellAt_copyFrom_first hr hr hw (show x + m ≤ w by omega) (show x + n + m ≤ w by omega) hm h0
  have hcut : ∀ cell : Cell, Cell.IsSpace cell.cut := fun _ => ⟨rfl, rfl⟩
  rw [cellAt_insertColumns hr hn hfit (by omega), if_neg (by omega), hmid]
  by_cases hlead : 1 < m ∧ (r.cellAt (x + n)).cols = 2
  · rw [if_pos hlead]
    split_ifs <;> simp [hcut, hlead.1, hlead.2]
  · rw [if_neg hlead]
    split_ifs with h
    · simp only [hcut, true_iff]
      exact .inr (.inl (by omega))
    · refine ⟨.inl, ?_⟩
      rintro (hs | h0 | h2)
      · exact hs
      · exact absurd (.inr ⟨rfl, h0⟩) h
      · exact absurd ⟨h2.2, h2.1⟩ hlead

end Insert

/-- The insertion is exact under these conditions, and only then. -/
theorem columnsMoved_insert_iff (hr : r.ShowsSome w) (hw : w ≤ 0x7FFF) (hn : 0 < n) (hfit : x + n + m ≤ w) :
    ColumnsMoved r (r.insertColumns attr x n m) w x (x + n + m) x (x + n) m attr ↔ InsertExact r w x n m := by
  have hmem {i : Nat} := cellAt_insertColumns_mem attr hr hw hn hfit (i := i)
  have hfirst := cellAt_insertColumns_first attr hr hw hn hfit
  constructor
  · intro h
    refine ⟨fun hm h0 => ?_, fun hm h2 => ?_, fun i hi hpos h0 => ?_⟩
    · have := h.moved 0 hm
      rw [if_pos (.inl ⟨rfl, h0⟩)] at this
      exact (hfirst hm h0).mp this
    · have hlast := h.moved (m - 1) (by omega)
      have hsource : x + (m - 1) = x + m - 1 := by omega
      have hx : m - 1 = 0 → (r.cellAt x).cols ≠ 0 := by
        intro hi
        rw [show x = x + m - 1 by omega]
        omega
      rw [if_pos (.inr ⟨by omega, hsource ▸ h2⟩), hmem (by omega) hx] at hlast
      obtain ⟨hglyph, hcols⟩ := copiedCell_lead r m x (w - (x + n)) (i := m - 1)
        (by rw [hsource]; exact h2) (by omega)
      rw [hglyph, hcols, hsource] at hlast
      refine ⟨?_, hlast.1⟩
      by_contra hroom
      rw [if_neg (by omega)] at hlast
      omega
    · have := h.moved i hi
      rw [if_neg (by omega), hmem hi (by omega)] at this
      exact (copiedCell_eq_iff (by omega)).mp this h0
  · intro h
    refine ⟨fun i hi => ?_, fun c hc hout => ?_, fun c hc hout => ?_⟩
    · by_cases hskip : i = 0 ∧ (r.cellAt x).cols = 0
      · obtain ⟨rfl, h0⟩ := hskip
        rw [if_pos (.inl ⟨rfl, h0⟩)]
        exact (hfirst hi h0).mpr (h.first hi h0)
      · rw [hmem hi (fun hi0 h0 => hskip ⟨hi0, h0⟩)]
        by_cases hlast : i + 1 = m ∧ (r.cellAt (x + i)).cols = 2
        · have hsource : x + i = x + m - 1 := by omega
          obtain ⟨hend, hspace⟩ := h.last (by omega) (hsource ▸ hlast.2)
          obtain ⟨hglyph, hcols⟩ := copiedCell_lead r m x (w - (x + n)) hlast.2 hlast.1
          rw [if_pos (.inr hlast), hglyph, hcols, if_pos (by omega), hsource]
          exact ⟨hspace, rfl⟩
        · have hnot : ¬ (i = 0 ∧ (r.cellAt (x + i)).cols = 0) := by
            rintro ⟨rfl, h0⟩
            exact hskip ⟨rfl, h0⟩
          rw [if_neg (fun hh => hh.elim hnot hlast), copiedCell_eq_iff hlast]
          exact fun h0 => h.attrs i hi (Nat.pos_of_ne_zero fun hi0 => hnot ⟨hi0, h0⟩) h0
    · rw [cellAt_insertColumns hr hn hfit (by omega), if_pos (by omega)]
    · rw [cellAt_insertColumns hr hn hfit hc, if_neg (by omega)]
      rcases hout with hlt | hge
      · have hmid := cellAt_copyFrom_left hr hr hw (show x + m ≤ w by omega) hfit (show c < x + n by omega)
        rw [if_neg (by omega)] at hmid
        rw [hmid]
        exact if_congr (by omega) rfl rfl
      · rcases Nat.eq_zero_or_pos m with rfl | hm
        · refine if_congr ?_ rfl rfl
          change c + 1 = x ∧ (r.cellAt c).cols = 2 ∨ c = x + n ∧ (r.cellAt c).cols = 0 ↔ _
          omega
        · have hmid := cellAt_copyFrom_right hr hr hw (show x + m ≤ w by omega) hfit hge hc (by
            by_cases h2 : (r.cellAt (x + m - 1)).cols = 2
            · exact .inr (h.last hm h2).1
            · exact .inl h2)
          have hcut : m = 1 → (r.cellAt x).cols = 0 → c = x + n + m → (r.cellAt c).cols ≠ 0 := by
            rintro rfl h0 rfl hc0
            have h2 := (hr.lead_of_trail hc hc0).2.1
            rw [Nat.add_sub_cancel] at h2
            rcases h.first hm h0 with hs | h | h
            · exact absurd hs.2 (by omega)
            · omega
            · omega
          rw [if_neg (by omega), hmid]
          refine if_congr ⟨fun hh => .inr hh.2.2, fun hh => ?_⟩ rfl rfl
          have hend : c = x + n + m ∧ (r.cellAt c).cols = 0 := by omega
          exact ⟨hm, fun hh => hcut hh.1 hh.2 hend.1 hend.2, hend⟩

theorem cellAt_deleteColumns (hr : r.ShowsSome w) (hn : 0 < n) (hfit : x + m + n ≤ w) {c : Nat} (hc : c < w) :
    (r.deleteColumns attr x n m).cellAt c =
      if x + m ≤ c ∧ c < x + m + n then ⟨[0x20], 1, .ofWord attr⟩
      else if c + 1 = x + m ∧ ((r.copyFrom r (x + n) x m).cellAt c).cols = 2 ∨
          c = x + m + n ∧ ((r.copyFrom r (x + n) x m).cellAt c).cols = 0 then ((r.copyFrom r (x + n) x m).cellAt c).cut
      else (r.copyFrom r (x + n) x m).cellAt c :=
  cellAt_fillColumns (hr.copyFrom hr (x + n) x m) hfit hn hc

section Delete

variable (hr : r.ShowsSome w) (hw : w ≤ 0x7FFF) (hn : 0 < n) (hfit : x + m + n ≤ w)

include hr hw hn hfit

variable (attr) in
/-- A column that moves to the left. A first half at the end is cut when the next column is cleared. -/
theorem cellAt_deleteColumns_mem {i : Nat} (hi : i < m) (h : i = 0 → (r.cellAt (x + n)).cols ≠ 0) :
    (r.deleteColumns attr x n m).cellAt (x + i) =
      if i + 1 = m ∧ (r.cellAt (x + n + i)).cols = 2 then (copiedCell r (x + n) m (w - x) i).cut
      else copiedCell r (x + n) m (w - x) i := by
  have hmid := cellAt_copyFrom_mem hr hr hw (show x + n + m ≤ w by omega) (show x + m ≤ w by omega) hi h
  have hlead : (copiedCell r (x + n) m (w - x) i).cols = 2 ↔ (r.cellAt (x + n + i)).cols = 2 := by
    unfold copiedCell
    dsimp only
    split_ifs
    · exact Iff.rfl
    · omega
    · exact Iff.rfl
  rw [cellAt_deleteColumns hr hn hfit (by omega), if_neg (by omega), hmid]
  exact if_congr (by omega) rfl rfl

variable (attr) in
/-- The first of them, when it is a second half. -/
theorem cellAt_deleteColumns_first (hm : 0 < m) (h0 : (r.cellAt (x + n)).cols = 0) :
    Cell.IsSpace ((r.deleteColumns attr x n m).cellAt x) ↔ Cell.IsSpace (r.cellAt x) ∨ (r.cellAt x).cols = 2 := by
  have hmid := cellAt_copyFrom_first hr hr hw (show x + n + m ≤ w by omega) (show x + m ≤ w by omega) hm h0
  have hcut : ∀ cell : Cell, Cell.IsSpace cell.cut := fun _ => ⟨rfl, rfl⟩
  rw [cellAt_deleteColumns hr hn hfit (by omega), if_neg (by omega), hmid]
  by_cases h2 : (r.cellAt x).cols = 2
  · simp only [h2, or_true, iff_true, and_true]
    split_ifs
    · exact hcut _
    · exact hcut _
    · exact hcut _
    · omega
  · have hkeep : (if 1 < m ∧ (r.cellAt x).cols = 2 then (r.cellAt x).cut else r.cellAt x) = r.cellAt x :=
      if_neg fun hh => h2 hh.2
    rw [hkeep, if_neg (by omega)]
    exact ⟨.inl, fun h => h.resolve_right h2⟩

end Delete

/-- The deletion is exact under these conditions, and only then. -/
theorem columnsMoved_delete_iff (hr : r.ShowsSome w) (hw : w ≤ 0x7FFF) (hn : 0 < n) (hfit : x + m + n ≤ w) :
    ColumnsMoved r (r.deleteColumns attr x n m) w x (x + m + n) (x + n) x m attr ↔ DeleteExact r x n m := by
  have hmem {i : Nat} := cellAt_deleteColumns_mem attr hr hw hn hfit (i := i)
  have hfirst := cellAt_deleteColumns_first attr hr hw hn hfit
  constructor
  · intro h
    refine ⟨fun hm h0 => ?_, fun i hi hpos h0 => ?_⟩
    · have := h.moved 0 hm
      rw [if_pos (.inl ⟨rfl, h0⟩)] at this
      exact (hfirst hm h0).mp this
    · have := h.moved i hi
      rw [if_neg (by omega), hmem hi (by omega), if_neg (by omega)] at this
      exact (copiedCell_eq_iff (by omega)).mp this h0
  · intro h
    refine ⟨fun i hi => ?_, fun c hc hout => ?_, fun c hc hout => ?_⟩
    · by_cases hskip : i = 0 ∧ (r.cellAt (x + n)).cols = 0
      · obtain ⟨rfl, h0⟩ := hskip
        rw [if_pos (.inl ⟨rfl, h0⟩)]
        exact (hfirst hi h0).mpr (h.first hi h0)
      · rw [hmem hi (fun hi0 h0 => hskip ⟨hi0, h0⟩)]
        by_cases hlast : i + 1 = m ∧ (r.cellAt (x + n + i)).cols = 2
        · rw [if_pos (.inr hlast), if_pos hlast]
          exact ⟨rfl, rfl⟩
        · have hnot : ¬ (i = 0 ∧ (r.cellAt (x + n + i)).cols = 0) := by
            rintro ⟨rfl, h0⟩
            exact hskip ⟨rfl, h0⟩
          rw [if_neg (fun hh => hh.elim hnot hlast), if_neg hlast, copiedCell_eq_iff hlast]
          exact fun h0 => h.attrs i hi (Nat.pos_of_ne_zero fun hi0 => hnot ⟨hi0, h0⟩) h0
    · rw [cellAt_deleteColumns hr hn hfit (by omega), if_pos (by omega)]
    · rw [cellAt_deleteColumns hr hn hfit hc, if_neg (by omega)]
      rcases hout with hlt | hge
      · have hmid := cellAt_copyFrom_left hr hr hw (show x + n + m ≤ w by omega) (show x + m ≤ w by omega) hlt
        rcases Nat.eq_zero_or_pos m with rfl | hm
        · rw [if_neg (by omega)] at hmid
          rw [hmid]
          exact if_congr (by omega) rfl rfl
        · have hkeep : (r.cellAt (x + n)).cols = 0 → c + 1 = x → (r.cellAt c).cols ≠ 2 := by
            rintro h0 rfl h2
            have hx0 := (hr.trail_of_lead hc h2).2.1
            rcases h.first hm h0 with hs | h
            · exact absurd hs.2 (by omega)
            · omega
          rw [if_neg (by omega), hmid]
          refine if_congr ⟨fun hh => .inl hh.2.2, fun hh => ?_⟩ rfl rfl
          have hcut : c + 1 = x ∧ (r.cellAt c).cols = 2 := by omega
          exact ⟨hm, fun h0 => hkeep h0 hcut.1 hcut.2, hcut⟩
      · rcases cellAt_copyFrom_beyond hr hr hw (show x + n + m ≤ w by omega) (show x + m ≤ w by omega)
          (show x + m < c by omega) hc with hmid | ⟨hend, h0, hmid⟩
        · rw [hmid]
          exact if_congr (by omega) rfl rfl
        · rw [hmid, if_neg (show ¬ _ from fun hh => ?_), if_pos (.inr ⟨by omega, h0⟩)]
          rcases hh with ⟨h1, -⟩ | ⟨-, h1⟩
          · omega
          · exact absurd h1 Nat.one_ne_zero

end ScreenBufferRow

namespace Console

open ScreenBuffer

variable {s : ScreenBuffer} {y : Int} {attr : UInt16} {c : Console} {count : Int}

theorem modifyRow_id (s : ScreenBuffer) (y : Int) : (s.modifyRow y fun r => r) = s :=
  congrArg (fun rows => { s with rows := rows }) (List.modify_id ..)

theorem clearTerminalLineRange_eq {a n : Nat} (hy : 0 ≤ y ∧ y < s.size.y) (hn : a + n ≤ s.size.x.toNat) :
    clearTerminalLineRange s y a (a + n - 1) attr = s.modifyRow y (fillColumns 0x20 attr a (a + n - 1)) := by
  have hlen : ((a : Int) + n - 1 - a + 1).toNat = n := by omega
  unfold clearTerminalLineRange fillColumns
  rw [hlen, Int.toNat_natCast]
  induction n with
  | zero => exact (modifyRow_id s y).symm
  | succ n ih =>
    rw [List.range_succ, List.foldl_append, ih (by omega) (by omega), List.range'_concat]
    simp only [List.foldl_cons, List.foldl_nil, List.foldl_append, Nat.one_mul]
    have hv (f : ScreenBufferRow → ScreenBufferRow) : (s.modifyRow y f).valid ⟨a + n, y⟩ = true :=
      valid_iff.mpr ⟨⟨by dsimp only; omega, by dsimp only [modifyRow]; omega⟩, hy⟩
    rw [ScreenBuffer.clearCell, if_pos (hv _), modifyRow_modifyRow]
    rfl

/-- Columns that are cleared in a row that has been changed. -/
theorem clearTerminalLineRange_modifyRow {a n : Nat} (f : ScreenBufferRow → ScreenBufferRow) (hy : 0 ≤ y ∧ y < s.size.y)
    (hn : a + n ≤ s.size.x.toNat) : clearTerminalLineRange (s.modifyRow y f) y a (a + n - 1) attr =
      s.modifyRow y fun r => fillColumns 0x20 attr a (a + n - 1) (f r) := by
  have hclear : clearTerminalLineRange (s.modifyRow y f) y a (a + n - 1) attr =
      (s.modifyRow y f).modifyRow y (fillColumns 0x20 attr a (a + n - 1)) := clearTerminalLineRange_eq hy hn
  rw [hclear, modifyRow_modifyRow]

/-- The column of the cursor, kept in the viewport. -/
def cursorColumn (c : Console) : Nat := (clamp c.state.position.x c.sb.viewport.rect.left c.sb.viewport.rect.right).toNat

/-- The columns from there to the right edge of the viewport. -/
def columnsLeft (c : Console) : Nat := c.sb.viewport.rect.right.toNat + 1 - c.cursorColumn

/-- How many of them become blank. -/
def blankColumns (c : Console) (count : Int) : Nat := min c.columnsLeft (max 1 count).toNat

/-- How many of them are moved. -/
def movedColumns (c : Console) (count : Int) : Nat := c.columnsLeft - c.blankColumns count

/-- In the row of the cursor the columns from `source` on are moved to `dest`,
and the rest of the console is as before. -/
structure LineMoved (c c' : Console) (count : Int) (source dest : Nat) : Prop where
  columns : ColumnsMoved (c.sb.row c.state.position.y) (c'.sb.row c.state.position.y) c.sb.size.x.toNat c.cursorColumn
    (c.cursorColumn + c.columnsLeft) source dest (c.movedColumns count) c.state.defaultAttributes
  rows : ∀ y : Int, 0 ≤ y ∧ y < c.sb.size.y → y ≠ c.state.position.y → c'.sb.row y = c.sb.row y
  state : c'.state = c.state
  size : c'.sb.size = c.sb.size
  viewport : c'.sb.viewport = c.sb.viewport

/-- The cursor is in a row of the viewport. -/
def RowInView (c : Console) : Prop :=
  c.sb.viewport.rect.top ≤ c.state.position.y ∧ c.state.position.y ≤ c.sb.viewport.rect.bottom

instance (c : Console) : Decidable c.RowInView := inferInstanceAs (Decidable (_ ∧ _))

theorem RowInView.valid (h : c.RowInView) (hin : c.sb.viewport.Inside c.sb.size) :
    0 ≤ c.state.position.y ∧ c.state.position.y < c.sb.size.y := by
  have ht := hin.top
  have hb := hin.bottom
  unfold RowInView at h
  omega

/-- The numbers that both functions compute. -/
theorem columns_eq (h : c.sb.Sized) (hin : c.sb.viewport.Inside c.sb.size) (hcount : IsShort count) :
    let x := clamp c.state.position.x c.sb.viewport.rect.left c.sb.viewport.rect.right
    let available := i16 (c.sb.viewport.rect.right - x + 1)
    let n := min available (i16 (max 1 count))
    x = c.cursorColumn ∧ n = c.blankColumns count ∧ i16 (available - n) = c.movedColumns count ∧
      0 < c.blankColumns count ∧ c.cursorColumn + c.columnsLeft = c.sb.viewport.rect.right.toNat + 1 ∧
      c.blankColumns count + c.movedColumns count = c.columnsLeft := by
  intro x available n
  have hl := hin.left
  have hr := hin.right
  have hw := h.width
  have h1 : c.sb.viewport.rect.left ≤ x := le_clamp hin.leftRight
  have h2 : x ≤ c.sb.viewport.rect.right := clamp_le hin.leftRight
  have hx : x = c.cursorColumn := (Int.toNat_of_nonneg (by omega)).symm
  have ha : available = c.columnsLeft := by
    unfold columnsLeft
    rw [← Int.toNat_natCast c.cursorColumn, ← hx]
    exact (i16_of_range (by omega) (by omega)).trans (by omega)
  have hleft : 0 < c.columnsLeft ∧ c.columnsLeft ≤ 0x7FFF := by
    unfold columnsLeft
    omega
  have hn : n = c.blankColumns count := by
    unfold n blankColumns
    rw [ha, i16_of_range (by omega) (by unfold IsShort at hcount; omega)]
    omega
  have hblank : 0 < c.blankColumns count ∧ c.blankColumns count ≤ c.columnsLeft := by
    unfold blankColumns
    omega
  refine ⟨hx, hn, ?_, hblank.1, ?_, ?_⟩
  · rw [ha, hn, i16_of_range (by omega) (by omega), movedColumns]
    omega
  · unfold columnsLeft
    omega
  · unfold movedColumns
    omega

/-- Nothing is copied when no column is left, with or without the test. -/
theorem copyRow_eq (s : ScreenBuffer) (y : Int) (saved : ScreenBufferRow) (source dest m : Nat) :
    (if (m : Int) > 0 then s.modifyRow y fun r => r.copyFrom saved source dest m else s) =
      s.modifyRow y fun r => r.copyFrom saved source dest m := by
  rcases Nat.eq_zero_or_pos m with rfl | hm
  · exact (modifyRow_id s y).symm
  · exact if_pos (by omega)

theorem insertCharacters_eq (h : c.sb.Sized) (hin : c.sb.viewport.Inside c.sb.size) (hcount : IsShort count)
    (hrow : c.RowInView) : (c.applyTerminalInsertCharacters count).sb = c.sb.modifyRow c.state.position.y fun r =>
      fillColumns 0x20 c.state.defaultAttributes c.cursorColumn (c.cursorColumn + c.blankColumns count - 1)
        (r.copyFrom (c.sb.row c.state.position.y) c.cursorColumn (c.cursorColumn + c.blankColumns count)
          (c.movedColumns count)) := by
  obtain ⟨hx, hn, hm, hpos, hend, hsum⟩ := columns_eq h hin hcount
  have hw := h.width
  have hr := hin.right
  have hy := hrow.valid hin
  unfold applyTerminalInsertCharacters
  dsimp only at hn hm ⊢
  unfold RowInView at hrow
  rw [if_neg (by omega), hm, hn, hx, i16_of_range (by omega) (by omega), Int.toNat_natCast, Int.toNat_natCast,
    ← Int.natCast_add, Int.toNat_natCast, u16_of_lt (by omega), u16_of_lt (by omega), u16_of_lt (by omega),
    copyRow_eq, Int.natCast_add]
  exact clearTerminalLineRange_modifyRow _ hy (by omega)

theorem deleteCharacters_eq (h : c.sb.Sized) (hin : c.sb.viewport.Inside c.sb.size) (hcount : IsShort count)
    (hrow : c.RowInView) : (c.applyTerminalDeleteCharacters count).sb = c.sb.modifyRow c.state.position.y fun r =>
      fillColumns 0x20 c.state.defaultAttributes (c.cursorColumn + c.movedColumns count : Nat)
        ((c.cursorColumn + c.movedColumns count : Nat) + c.blankColumns count - 1)
        (r.copyFrom (c.sb.row c.state.position.y) (c.cursorColumn + c.blankColumns count) c.cursorColumn
          (c.movedColumns count)) := by
  obtain ⟨hx, hn, hm, hpos, hend, hsum⟩ := columns_eq h hin hcount
  have hw := h.width
  have hr := hin.right
  have hy := hrow.valid hin
  have hl := hin.left
  have hlr := hin.leftRight
  have hright : c.sb.viewport.rect.right =
      (c.cursorColumn + c.movedColumns count : Nat) + (c.blankColumns count : Int) - 1 := by omega
  unfold applyTerminalDeleteCharacters
  dsimp only at hn hm ⊢
  unfold RowInView at hrow
  rw [if_neg (by omega), hm, hn, hx, i16_of_range (by omega) (by omega), Int.toNat_natCast, Int.toNat_natCast,
    ← Int.natCast_add, Int.toNat_natCast, u16_of_lt (by omega), u16_of_lt (by omega), u16_of_lt (by omega),
    copyRow_eq]
  rw [show c.sb.viewport.rect.right - c.blankColumns count + 1 = (c.cursorColumn + c.movedColumns count : Nat) by omega,
    hright]
  exact clearTerminalLineRange_modifyRow _ hy (by omega)

/-- When a change of the row of the cursor moves its columns. -/
theorem lineMoved_iff {f : ScreenBufferRow → ScreenBufferRow} {c' : Console} {source dest : Nat} (h : c.sb.Sized)
    (hin : c.sb.viewport.Inside c.sb.size) (hrow : c.RowInView)
    (hf : ∀ r, r.ShowsSome c.sb.size.x.toNat → (f r).ShowsSome c.sb.size.x.toNat) (hstate : c'.state = c.state)
    (hsb : c'.sb = c.sb.modifyRow c.state.position.y f) : LineMoved c c' count source dest ↔
      ColumnsMoved (c.sb.row c.state.position.y) (f (c.sb.row c.state.position.y)) c.sb.size.x.toNat c.cursorColumn
        (c.cursorColumn + c.columnsLeft) source dest (c.movedColumns count) c.state.defaultAttributes := by
  obtain ⟨hy0, hy⟩ := hrow.valid hin
  have hrows (i : Nat) (hi : (i : Int) < c.sb.size.y) : c'.sb.row i =
      if i = c.state.position.y.toNat then f (c.sb.row i) else c.sb.row i := by
    rw [hsb, ← Int.toNat_of_nonneg hy0]
    exact h.row_modifyRow f hf (by omega) hi
  have hself := hrows c.state.position.y.toNat (by omega)
  rw [if_pos rfl, Int.toNat_of_nonneg hy0] at hself
  refine ⟨fun hm => hself ▸ hm.columns, fun hm => ⟨hself.symm ▸ hm, fun y hy hne => ?_, hstate, ?_, ?_⟩⟩
  · have hother := hrows y.toNat (by omega)
    rwa [if_neg (by omega), Int.toNat_of_nonneg hy.1] at hother
  · rw [hsb]
    rfl
  · rw [hsb]
    rfl

theorem lineMoved_insert_iff (h : c.sb.Sized) (hin : c.sb.viewport.Inside c.sb.size) (hcount : IsShort count)
    (hrow : c.RowInView) :
    LineMoved c (c.applyTerminalInsertCharacters count) count c.cursorColumn (c.cursorColumn + c.blankColumns count) ↔
      InsertExact (c.sb.row c.state.position.y) c.sb.size.x.toNat c.cursorColumn (c.blankColumns count)
        (c.movedColumns count) := by
  obtain ⟨-, -, -, hpos, hend, hsum⟩ := columns_eq h hin hcount
  have hw := h.width
  have hr := hin.right
  have hold := showsSome_row h (hrow.valid hin).2
  have hstate : (c.applyTerminalInsertCharacters count).state = c.state := by
    unfold applyTerminalInsertCharacters
    dsimp only
    split <;> rfl
  rw [lineMoved_iff h hin hrow (fun r hr => (acts_fillColumns 0x20 _ _ _).showsSome (hr.copyFrom hold _ _ _)) hstate
    (insertCharacters_eq h hin hcount hrow), ← columnsMoved_insert_iff hold (by omega) hpos (by omega),
    ← hsum, Nat.add_assoc]
  rfl

theorem lineMoved_delete_iff (h : c.sb.Sized) (hin : c.sb.viewport.Inside c.sb.size) (hcount : IsShort count)
    (hrow : c.RowInView) :
    LineMoved c (c.applyTerminalDeleteCharacters count) count (c.cursorColumn + c.blankColumns count) c.cursorColumn ↔
      DeleteExact (c.sb.row c.state.position.y) c.cursorColumn (c.blankColumns count) (c.movedColumns count) := by
  obtain ⟨-, -, -, hpos, hend, hsum⟩ := columns_eq h hin hcount
  have hw := h.width
  have hr := hin.right
  have hold := showsSome_row h (hrow.valid hin).2
  have hstate : (c.applyTerminalDeleteCharacters count).state = c.state := by
    unfold applyTerminalDeleteCharacters
    dsimp only
    split <;> rfl
  rw [lineMoved_iff h hin hrow (fun r hr => (acts_fillColumns 0x20 _ _ _).showsSome (hr.copyFrom hold _ _ _)) hstate
    (deleteCharacters_eq h hin hcount hrow), ← columnsMoved_delete_iff hold (by omega) hpos (by omega),
    show c.cursorColumn + c.columnsLeft = c.cursorColumn + c.movedColumns count + c.blankColumns count by omega]
  rfl

end Console

open ScreenBuffer (Op run ofSize sim_run sim_ofSize)

/-- Inserted and deleted characters move the columns behind the cursor exactly
when no half is left out or split off, and no attribute of a half is lost. -/
theorem insert_delete_characters_iff {sz : Coord} (hx : 1 ≤ sz.x ∧ sz.x ≤ 0x7FFF) (hy : 1 ≤ sz.y ∧ sz.y ≤ 0x7FFF)
    (history : List Op) (state : ConsoleState) {count : Int} (hcount : IsShort count)
    (hrow : ({ state, sb := run (ofSize sz) history } : Console).RowInView) :
    let c : Console := { state, sb := run (ofSize sz) history }
    let r := c.sb.row c.state.position.y
    let x := c.cursorColumn
    let n := c.blankColumns count
    let m := c.movedColumns count
    (c.LineMoved (c.applyTerminalInsertCharacters count) count x (x + n) ↔ r.InsertExact c.sb.size.x.toNat x n m) ∧
      (c.LineMoved (c.applyTerminalDeleteCharacters count) count (x + n) x ↔ r.DeleteExact x n m) := by
  intro c r x n m
  have hsim := sim_run history (sim_ofSize hx hy)
  exact ⟨Console.lineMoved_insert_iff hsim.sized hsim.inside hcount hrow,
    Console.lineMoved_delete_iff hsim.sized hsim.inside hcount hrow⟩

/-- A wide glyph behind the cursor that moves whole, in a row of four columns. -/
theorem insert_delete_characters_iff_wide :
    let c : Console := { sb := run (ofSize ⟨4, 1⟩) [.writeGlyph ⟨0, 0⟩ 0x61 1 7, .writeGlyph ⟨1, 0⟩ 0x4E2D 2 7] }
    c.LineMoved (c.applyTerminalInsertCharacters 1) 1 0 1 ∧ c.LineMoved (c.applyTerminalDeleteCharacters 1) 1 1 0 := by
  intro c
  have h := @insert_delete_characters_iff ⟨4, 1⟩ (by decide) (by decide)
    [.writeGlyph ⟨0, 0⟩ 0x61 1 7, .writeGlyph ⟨1, 0⟩ 0x4E2D 2 7] {} 1 (by decide) (by decide)
  exact ⟨h.1.mpr ⟨by decide, by decide, by decide⟩, h.2.mpr ⟨by decide, by decide⟩⟩

/-- The cursor on a second half: the narrow character behind it is seen twice after an insertion. -/
theorem insert_characters_leaves_stale :
    let c : Console := { state := { position := ⟨1, 0⟩ },
                         sb := run (ofSize ⟨4, 1⟩) [.writeGlyph ⟨0, 0⟩ 0x4E2D 2 7, .writeGlyph ⟨2, 0⟩ 0x61 1 7] }
    ((c.applyTerminalInsertCharacters 1).sb.row 0).visible.map Cell.glyph = [[0x20], [0x20], [0x61], [0x61]] ∧
      ¬ c.LineMoved (c.applyTerminalInsertCharacters 1) 1 1 2 := by
  intro c
  refine ⟨by decide, fun h => ?_⟩
  have hfirst := h.columns.moved 0 (by decide)
  revert hfirst
  decide

end Corehost
