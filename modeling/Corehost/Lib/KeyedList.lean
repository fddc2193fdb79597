import Mathlib.Data.List.Basic

/-!
# Maps as lists of entries

A map whose keys count as equal when `norm` takes them to the same value. An
entry keeps the key it was inserted with.

* `find_insertOrAssign`, `find_erase`: what a lookup returns after an operation.
-/

namespace Corehost.Lib.KeyedList

variable {κ ν β : Type*} [DecidableEq ν]

def find (norm : κ → ν) (m : List (κ × β)) (k : κ) : Option β :=
  (m.find? fun e => norm e.1 = norm k).map Prod.snd

def insertOrAssign (norm : κ → ν) (m : List (κ × β)) (k : κ) (v : β) : List (κ × β) :=
  if (find norm m k).isSome then m.map fun e => if norm e.1 = norm k then (e.1, v) else e else m ++ [(k, v)]

def erase (norm : κ → ν) (m : List (κ × β)) (k : κ) : List (κ × β) := m.filter fun e => norm e.1 ≠ norm k

variable {norm : κ → ν}

@[simp] theorem find_nil (k : κ) : find norm ([] : List (κ × β)) k = none := rfl

theorem find_cons (e : κ × β) (m : List (κ × β)) (k : κ) :
    find norm (e :: m) k = if norm e.1 = norm k then some e.2 else find norm m k := by
  unfold find
  rw [List.find?_cons]
  split_ifs with h <;> simp [h]

theorem find_congr (m : List (κ × β)) {k k' : κ} (h : norm k = norm k') : find norm m k = find norm m k' := by
  unfold find
  rw [h]

theorem find_append (m : List (κ × β)) (k k' : κ) (v : β) :
    find norm (m ++ [(k, v)]) k' = (find norm m k').or (if norm k = norm k' then some v else none) := by
  induction m with
  | nil => rw [List.nil_append, find_cons, find_nil, Option.none_or]
  | cons e m ih =>
    rw [List.cons_append, find_cons, find_cons, ih]
    split_ifs <;> rfl

/-- Assigning to the entries of a key. -/
theorem find_assign (m : List (κ × β)) (k k' : κ) (v : β) :
    find norm (m.map fun e => if norm e.1 = norm k then (e.1, v) else e) k' =
      if norm k = norm k' then (find norm m k').map fun _ => v else find norm m k' := by
  induction m with
  | nil => split_ifs <;> rfl
  | cons e m ih =>
    rw [List.map_cons, find_cons, find_cons, ih]
    by_cases he : norm e.1 = norm k
    · rw [if_pos he]
      by_cases hk : norm k = norm k'
      · rw [if_pos (he.trans hk), if_pos hk, if_pos (he.trans hk), Option.map_some]
      · rw [if_neg fun h => hk (he.symm.trans h), if_neg hk, if_neg hk, if_neg fun h => hk (he.symm.trans h)]
    · rw [if_neg he]
      split_ifs with h1 h2
      · exact absurd (h1.trans h2.symm) he
      · rfl
      · rfl
      · rfl

theorem find_insertOrAssign (m : List (κ × β)) (k k' : κ) (v : β) :
    find norm (insertOrAssign norm m k v) k' = if norm k = norm k' then some v else find norm m k' := by
  unfold insertOrAssign
  by_cases hk : norm k = norm k'
  · rw [if_pos hk, find_congr m hk]
    split_ifs with hsome
    · obtain ⟨w, hw⟩ := Option.isSome_iff_exists.mp hsome
      rw [find_assign, if_pos hk, hw, Option.map_some]
    · rw [find_append, if_pos hk, Option.not_isSome_iff_eq_none.mp hsome, Option.none_or]
  · rw [if_neg hk]
    split_ifs
    · rw [find_assign, if_neg hk]
    · rw [find_append, if_neg hk, Option.or_none]

theorem find_erase (m : List (κ × β)) (k k' : κ) :
    find norm (erase norm m k) k' = if norm k = norm k' then none else find norm m k' := by
  induction m with
  | nil => split_ifs <;> rfl
  | cons e m ih =>
    unfold erase at ih ⊢
    rw [List.filter_cons, find_cons]
    by_cases he : norm e.1 = norm k
    · rw [if_neg (by simpa using he), ih]
      split_ifs with h1 h2
      · rfl
      · exact absurd (he.symm.trans h2) h1
      · rfl
    · rw [if_pos (by simpa using he), find_cons, ih]
      split_ifs with h1 h2
      · exact absurd (h1.trans h2.symm) he
      · rfl
      · rfl
      · rfl

end Corehost.Lib.KeyedList
