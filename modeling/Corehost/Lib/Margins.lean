import Corehost.Lib.Ring

/-!
# Inserting and deleting lines between margins

IL and DL of a terminal, on the list of its lines: the lines from the cursor to
the bottom margin move, the others stay.

* `insertLines_slid`, `deleteLines_slid`: the lines slide by the number of
  lines inserted or deleted, and the new ones are blank.
-/

namespace Corehost.Lib

variable {α : Type*} {xs : List α} {row bottom n : Nat}

/-- IL with the cursor in line `row`: `n` blank lines, and the lines behind them
as far as the bottom margin. -/
def insertLines (xs : List α) (row bottom n : Nat) (blank : α) : List α :=
  let n := min n (bottom + 1 - row)
  xs.take row ++ (List.replicate n blank ++ ((xs.drop row).take (bottom + 1 - row - n) ++ xs.drop (bottom + 1)))

/-- DL with the cursor in line `row`: blank lines come in at the bottom margin. -/
def deleteLines (xs : List α) (row bottom n : Nat) (blank : α) : List α :=
  let n := min n (bottom + 1 - row)
  xs.take row ++ ((xs.drop (row + n)).take (bottom + 1 - row - n) ++ (List.replicate n blank ++ xs.drop (bottom + 1)))

theorem insertLines_slid (blank : α) (hn : n ≤ bottom + 1 - row) (hrow : row ≤ bottom) (hb : bottom < xs.length) :
    Slid row bottom n (· = blank) xs (insertLines xs row bottom n blank) := by
  have hmin : min n (bottom + 1 - row) = n := Nat.min_eq_left hn
  refine ⟨by simp [insertLines, hmin]; omega, fun i hi => ?_⟩
  have htake : (xs.take row).length = row := by simp; omega
  have hmid : ((xs.drop row).take (bottom + 1 - row - n)).length = bottom + 1 - row - n := by simp; omega
  unfold insertLines
  rw [hmin]
  split_ifs with h1 h2
  · rw [List.getElem?_append_right (by omega), htake, List.getElem?_append_right (by simp; omega), List.length_replicate,
      List.getElem?_append_left (by omega), List.getElem?_take_of_lt (by omega), List.getElem?_drop]
    congr 1
    omega
  · refine ⟨blank, ?_, rfl⟩
    rw [List.getElem?_append_right (by omega), htake, List.getElem?_append_left (by simp; omega),
      List.getElem?_replicate_of_lt (by omega)]
  · rcases Nat.lt_or_ge i row with h | h
    · rw [List.getElem?_append_left (by omega), List.getElem?_take_of_lt h]
    · rw [List.getElem?_append_right (by omega), htake, List.getElem?_append_right (by simp; omega), List.length_replicate,
        List.getElem?_append_right (by omega), hmid, List.getElem?_drop]
      congr 1
      omega

theorem deleteLines_slid (blank : α) (hn : n ≤ bottom + 1 - row) (hrow : row ≤ bottom) (hb : bottom < xs.length) :
    Slid row bottom (-n) (· = blank) xs (deleteLines xs row bottom n blank) := by
  have hmin : min n (bottom + 1 - row) = n := Nat.min_eq_left hn
  refine ⟨by simp [deleteLines, hmin]; omega, fun i hi => ?_⟩
  have htake : (xs.take row).length = row := by simp; omega
  have hmid : ((xs.drop (row + n)).take (bottom + 1 - row - n)).length = bottom + 1 - row - n := by simp; omega
  unfold deleteLines
  rw [hmin]
  split_ifs with h1 h2
  · rw [List.getElem?_append_right (by omega), htake, List.getElem?_append_left (by omega),
      List.getElem?_take_of_lt (by omega), List.getElem?_drop]
    congr 1
    omega
  · refine ⟨blank, ?_, rfl⟩
    rw [List.getElem?_append_right (by omega), htake, List.getElem?_append_right (by omega), hmid,
      List.getElem?_append_left (by simp; omega), List.getElem?_replicate_of_lt (by omega)]
  · rcases Nat.lt_or_ge i row with h | h
    · rw [List.getElem?_append_left (by omega), List.getElem?_take_of_lt h]
    · rw [List.getElem?_append_right (by omega), htake, List.getElem?_append_right (by omega), hmid,
        List.getElem?_append_right (by simp; omega), List.length_replicate, List.getElem?_drop]
      congr 1
      omega

end Corehost.Lib
