import Corehost.Vt.State

/-!
# The table of the tab stops

What the functions of `console_state.hpp` do with the table, a column at a time.

* `initTabStops_narrow`, `initTabStops_wide`: `init_tab_stops` makes the default
  stops, or writes in front of the table and does not end;
* `nextTabStop_spec`, `prevTabStop_spec`: the nearest stop on each side.
-/

namespace Corehost

open Lib

/-! ## The table -/

/-- The stop at a column. A column behind the table has none. -/
def isTabStop (stops : List Bool) (col : Nat) : Bool := stops.getD col false

/-- The stops that DEC terminals start with. -/
def isDefaultStop (col : Nat) : Bool := col % 8 == 0

variable {stops : List Bool} {col c : Nat}

theorem lt_length_of_isTabStop (h : isTabStop stops c = true) : c < stops.length := by
  by_contra hc
  rw [isTabStop, List.getD_eq_default _ _ (Nat.le_of_not_lt hc)] at h
  exact Bool.false_ne_true h

theorem isTabStop_of_ge (h : stops.length ≤ c) : isTabStop stops c = false := List.getD_eq_default _ _ h

theorem length_clearAllTabStops (stops : List Bool) : (clearAllTabStops stops).length = stops.length := List.length_map ..

theorem isTabStop_clearAllTabStops (stops : List Bool) (c : Nat) : isTabStop (clearAllTabStops stops) c = false := by
  by_cases h : c < (clearAllTabStops stops).length
  · rw [isTabStop, List.getD_eq_getElem _ _ h]
    simp only [clearAllTabStops, List.getElem_map]
  · exact isTabStop_of_ge (Nat.le_of_not_lt h)

theorem isTabStop_set (stops : List Bool) (col c : Nat) (v : Bool) :
    isTabStop (stops.set col v) c = if c = col ∧ col < stops.length then v else isTabStop stops c := by
  simp only [isTabStop, List.getD_eq_getElem?_getD, List.getElem?_set]
  by_cases hc : c = col
  · subst hc
    by_cases hlt : c < stops.length
    · simp only [hlt, if_true, and_self, Option.getD_some]
    · simp only [hlt, if_true, if_false, and_false, Option.getD_none, List.getElem?_eq_none (Nat.le_of_not_lt hlt)]
  · simp only [if_neg (Ne.symm hc), hc, false_and, if_false]

theorem clearTabStop_natCast (stops : List Bool) (col : Nat) : clearTabStop stops col = stops.set col false := by
  unfold clearTabStop
  split_ifs with h
  · rfl
  · exact (List.set_eq_of_length_le (by omega)).symm

/-- A table that has grown up to a column has the default stops there. -/
theorem ensureTabCapacity_natCast (stops : List Bool) (col : Nat) :
    (ensureTabCapacity stops col).length = max stops.length (col + 1) ∧
      ∀ c, isTabStop (ensureTabCapacity stops col) c =
        if c < stops.length then isTabStop stops c else c ≤ col && isDefaultStop c := by
  unfold ensureTabCapacity
  split_ifs with h
  · refine ⟨by omega, fun c => ?_⟩
    split_ifs with hc
    · rfl
    · rw [isTabStop_of_ge (Nat.le_of_not_lt hc), decide_eq_false (by omega), Bool.false_and]
  · refine ⟨by rw [List.length_append, List.length_map, List.length_range']; omega, fun c => ?_⟩
    simp only [isTabStop, List.getD_eq_getElem?_getD]
    split_ifs with hc
    · rw [List.getElem?_append_left hc]
    · rw [List.getElem?_append_right (Nat.le_of_not_lt hc), List.getElem?_map]
      by_cases hle : c ≤ col
      · rw [List.getElem?_range' (by omega), decide_eq_true hle, Bool.true_and, isDefaultStop]
        simp only [Option.map_some, Option.getD_some]
        congr 2
        omega
      · rw [List.getElem?_eq_none (by rw [List.length_range']; omega), decide_eq_false hle, Bool.false_and]
        rfl

theorem setTabStop_natCast (stops : List Bool) (col : Nat) :
    (setTabStop stops col).length = max stops.length (col + 1) ∧
      ∀ c, isTabStop (setTabStop stops col) c =
        if c = col then true else if c < stops.length then isTabStop stops c else c ≤ col && isDefaultStop c := by
  obtain ⟨hlen, hstop⟩ := ensureTabCapacity_natCast stops col
  have hset : setTabStop stops col = (ensureTabCapacity stops col).set col true := if_pos (Int.natCast_nonneg col)
  refine ⟨by rw [hset, List.length_set, hlen], fun c => ?_⟩
  rw [hset, isTabStop_set, hstop c]
  by_cases hc : c = col
  · rw [if_pos ⟨hc, by omega⟩, if_pos hc]
  · rw [if_neg (fun h => hc h.1), if_neg hc]

/-! ## The first table -/

/-- The widest buffer for which the counter of `init_tab_stops` does not wrap. -/
def widestTabbed : Int := 0x7FF8

theorem isTabStop_replicate (n c : Nat) : isTabStop (List.replicate n false) c = false := by
  by_cases h : c < n
  · rw [isTabStop, List.getD_replicate _ h]
  · exact isTabStop_of_ge (by rw [List.length_replicate]; omega)

/-- From column `8 * k` on, with enough turns. -/
theorem initTabStopsLoop_narrow {width : Int} (hw : width ≤ widestTabbed) : ∀ (n k : Nat) (stops : List Bool),
    stops.length = width.toNat → width ≤ 8 * (k + n) →
    ∃ stops', initTabStopsLoop width (n + 1) (8 * k) stops = some stops' ∧ stops'.length = stops.length ∧
      ∀ c < stops.length, isTabStop stops' c = (isTabStop stops c || (isDefaultStop c && decide (8 * k ≤ c)))
  | 0, k, stops, hlen, hle => by
    refine ⟨stops, if_neg (by omega), rfl, fun c hc => ?_⟩
    rw [decide_eq_false (by omega), Bool.and_false, Bool.or_false]
  | n + 1, k, stops, hlen, hle => by
    rw [initTabStopsLoop]
    split_ifs with hlt hneg
    · omega
    · have hcounter : i16 (8 * (k : Int) + 8) = 8 * ((k + 1 : Nat) : Int) := by
        unfold widestTabbed at hw
        rw [i16_of_range (by omega) (by omega)]
        omega
      obtain ⟨stops', hloop, hlen', hstops⟩ := initTabStopsLoop_narrow hw n (k + 1) (stops.set (8 * (k : Int)).toNat true)
        (List.length_set.trans hlen) (by omega)
      rw [List.length_set] at hlen' hstops
      refine ⟨stops', by rw [hcounter]; exact hloop, hlen', fun c hc => ?_⟩
      rw [hstops c hc, isTabStop_set, isDefaultStop]
      by_cases hcol : c = 8 * k
      · rw [if_pos ⟨by omega, by omega⟩, decide_eq_true (show 8 * k ≤ c by omega), Bool.true_or, Bool.and_true,
          show (c % 8 == 0) = true by rw [beq_iff_eq]; omega, Bool.or_true]
      · rw [if_neg (by omega)]
        -- no multiple of eight is between two neighbouring ones
        by_cases hmod : c % 8 = 0
        · rw [show decide (8 * (k + 1) ≤ c) = decide (8 * k ≤ c) from decide_eq_decide.mpr (by omega)]
        · rw [beq_false_of_ne hmod, Bool.false_and, Bool.false_and]
    · exact ⟨stops, rfl, rfl, fun c hc => by rw [decide_eq_false (by omega), Bool.and_false, Bool.or_false]⟩

/-- In a buffer that is wider the counter goes from `0x7FF8` to `-0x8000`. -/
theorem initTabStopsLoop_wide {width : Int} (hw : widestTabbed < width) : ∀ (n k : Nat) (stops : List Bool),
    8 * (k : Int) ≤ widestTabbed → initTabStopsLoop width n (8 * k) stops = none
  | 0, _, _, _ => rfl
  | n + 1, k, stops, hle => by
    rw [initTabStopsLoop, if_pos (by omega), if_neg (by omega)]
    unfold widestTabbed at *
    by_cases hlast : 8 * (k : Int) = 0x7FF8
    · rw [hlast, show i16 (0x7FF8 + 8) = -0x8000 from rfl]
      cases n with
      | zero => rfl
      | succ n => rw [initTabStopsLoop, if_pos (by omega), if_pos (by decide)]
    · rw [i16_of_range (by omega) (by omega), show 8 * (k : Int) + 8 = 8 * ((k + 1 : Nat) : Int) by omega]
      exact initTabStopsLoop_wide hw n (k + 1) _ (by unfold widestTabbed; omega)

theorem initTabStops_wide {width : Int} (hw : widestTabbed < width) : initTabStops width = none := by
  have hmax : max width defaultConsoleSize.x = width := max_eq_left (le_trans (by decide) hw.le)
  unfold initTabStops
  rw [hmax]
  exact initTabStopsLoop_wide hw (width.toNat + 1) 0 _ (by decide)

/-- The table covers the default width at least, and has the default stops. -/
theorem initTabStops_narrow {width : Int} (hw : width ≤ widestTabbed) : ∃ stops, initTabStops width = some stops ∧
    stops.length = (max width 120).toNat ∧ ∀ c < stops.length, isTabStop stops c = isDefaultStop c := by
  obtain ⟨stops, hloop, hlen, hstops⟩ := initTabStopsLoop_narrow (max_le hw (by decide : defaultConsoleSize.x ≤ widestTabbed))
    (max width defaultConsoleSize.x).toNat 0 (List.replicate (max width defaultConsoleSize.x).toNat false)
    List.length_replicate (by omega)
  rw [List.length_replicate] at hlen hstops
  refine ⟨stops, hloop, hlen, fun c hc => ?_⟩
  rw [hstops c (by rwa [hlen] at hc), isTabStop_replicate, Bool.false_or, decide_eq_true (by omega), Bool.and_true]

theorem initTabStops_eq_none_iff {width : Int} : initTabStops width = none ↔ widestTabbed < width := by
  refine ⟨fun h => ?_, initTabStops_wide⟩
  by_contra hw
  obtain ⟨stops, hsome, -⟩ := initTabStops_narrow (not_lt.mp hw)
  exact Option.some_ne_none stops (hsome.symm.trans h)

/-- What a table is that `init_tab_stops` has made. -/
theorem initTabStops_spec {width : Int} (h : initTabStops width = some stops) : width ≤ widestTabbed ∧
    stops.length = (max width 120).toNat ∧ ∀ c < stops.length, isTabStop stops c = isDefaultStop c := by
  have hw : width ≤ widestTabbed := by
    by_contra hwide
    exact Option.some_ne_none stops (h.symm.trans (initTabStops_wide (not_le.mp hwide)))
  obtain ⟨stops', hsome, hspec⟩ := initTabStops_narrow hw
  exact ⟨hw, Option.some_inj.mp (h.symm.trans hsome) ▸ hspec⟩

/-! ## `resize_window` -/

/-- A `resize_window` to more columns than `init_tab_stops` ends on. -/
def VtPayload.Overruns (payload : VtPayload) : Prop := 0 < payload.resizeValue.1 ∧ widestTabbed < payload.resizeValue.2

instance (payload : VtPayload) : Decidable payload.Overruns := inferInstanceAs (Decidable (_ ∧ _))

def Emitted.Overruns (m : Emitted) : Prop := m.id = .resizeWindow ∧ m.message.payload.Overruns

theorem VtConsole.resizeWindow_eq_none_iff {s : VtConsole} {payload : VtPayload} :
    s.resizeWindow payload.resizeValue.1 payload.resizeValue.2 = none ↔ payload.Overruns := by
  have hpos : widestTabbed < payload.resizeValue.2 → 0 < payload.resizeValue.2 := lt_trans (by decide)
  unfold VtConsole.resizeWindow VtPayload.Overruns
  split_ifs with h
  · rw [Option.map_eq_none_iff, initTabStops_eq_none_iff]
    exact (and_iff_right h.1).symm
  · exact iff_of_false (nofun) fun hover => h ⟨hover.1, hpos hover.2⟩

/-! ## The nearest stop -/

/-- A table whose columns are all `SHORT`. -/
def InShort (stops : List Bool) : Prop := stops.length ≤ 0x8000

/-- `r` is the first stop behind `col`, or `col` where there is none. -/
def IsNextStop (stops : List Bool) (col r : Nat) : Prop :=
  (col < r ∧ isTabStop stops r = true ∧ ∀ c, col < c → c < r → isTabStop stops c = false) ∨
    (r = col ∧ ∀ c, col < c → isTabStop stops c = false)

/-- `r` is the last stop in front of `col`, or 0 where there is none. -/
def IsPrevStop (stops : List Bool) (col r : Nat) : Prop :=
  (r < col ∧ isTabStop stops r = true ∧ ∀ c, r < c → c < col → isTabStop stops c = false) ∨
    (r = 0 ∧ ∀ c, c < col → isTabStop stops c = false)

theorem nextTabStop_spec (h : InShort stops) (col : Nat) : ∃ r : Nat, nextTabStop stops col = r ∧ IsNextStop stops col r := by
  unfold nextTabStop
  rw [if_neg (by omega), show ((col : Int) + 1).toNat = col + 1 by omega]
  dsimp only
  split
  · rename_i r hr
    obtain ⟨hstop, hmem, hnone⟩ := List.find?_range'_eq_some.mp hr
    have hlt := lt_length_of_isTabStop hstop
    unfold InShort at h
    refine ⟨r, i16_of_range (by omega) (by omega), .inl ⟨(List.mem_range'_1.mp hmem).1, hstop, fun c hc hcr => ?_⟩⟩
    have := hnone c hc hcr
    rwa [Bool.not_eq_true'] at this
  · rename_i hr
    refine ⟨col, rfl, .inr ⟨rfl, fun c hc => ?_⟩⟩
    by_cases hlt : c < stops.length
    · have := List.find?_range'_eq_none.mp hr c hc (by omega)
      rwa [Bool.not_eq_true'] at this
    · exact isTabStop_of_ge (Nat.le_of_not_lt hlt)

/-- The last number in front of `n` that `p` holds of. -/
theorem find?_reverse_range (p : Nat → Bool) : ∀ n : Nat,
    (∀ r, (List.range n).reverse.find? p = some r → r < n ∧ p r = true ∧ ∀ c, r < c → c < n → p c = false) ∧
      ((List.range n).reverse.find? p = none → ∀ c, c < n → p c = false)
  | 0 => ⟨fun r hr => by simp at hr, fun _ c hc => by omega⟩
  | n + 1 => by
    obtain ⟨hsome, hnone⟩ := find?_reverse_range p n
    rw [List.range_succ, List.reverse_append, List.reverse_singleton, List.singleton_append, List.find?_cons]
    cases hp : p n with
    | true =>
      refine ⟨fun r hr => ?_, fun hr => by cases hr⟩
      obtain rfl : n = r := Option.some_inj.mp hr
      exact ⟨by omega, hp, fun c hc hcn => by omega⟩
    | false =>
      refine ⟨fun r hr => ?_, fun hr c hc => ?_⟩
      · obtain ⟨hlt, hstop, hbetween⟩ := hsome r hr
        refine ⟨by omega, hstop, fun c hc hcn => ?_⟩
        by_cases heq : c = n
        · rw [heq, hp]
        · exact hbetween c hc (by omega)
      · by_cases heq : c = n
        · rw [heq, hp]
        · exact hnone hr c (by omega)

theorem prevTabStop_spec (h : InShort stops) (col : Nat) : ∃ r : Nat, prevTabStop stops col = r ∧ IsPrevStop stops col r := by
  obtain ⟨hsome, hnone⟩ := find?_reverse_range (isTabStop stops) col
  have heq : (fun c => stops.getD c false) = isTabStop stops := rfl
  unfold prevTabStop
  rw [Int.toNat_natCast, heq]
  cases hr : (List.range col).reverse.find? (isTabStop stops) with
  | some r =>
    obtain ⟨hlt, hstop, hbetween⟩ := hsome r hr
    have := lt_length_of_isTabStop hstop
    unfold InShort at h
    exact ⟨r, i16_of_range (by omega) (by omega), .inl ⟨hlt, hstop, hbetween⟩⟩
  | none => exact ⟨0, rfl, .inr ⟨rfl, hnone hr⟩⟩

end Corehost
