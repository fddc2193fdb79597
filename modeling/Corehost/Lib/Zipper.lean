import Mathlib.Data.List.Basic

/-!
# A sequence with a cursor

* `Zipper`: what is left of the cursor, nearest first, and what is right of it;
* `IsAt`: the same sequence as a list and an index. Every operation of the
  zipper is one on the list and the index.
-/

namespace Corehost.Lib

/-- A sequence with a cursor. -/
structure Zipper (α : Type*) where
  left : List α := []
  right : List α := []
deriving DecidableEq, Repr

namespace Zipper

variable {α : Type*}

def toList (z : Zipper α) : List α := z.left.reverse ++ z.right

def insert (a : α) (z : Zipper α) : Zipper α := ⟨a :: z.left, z.right⟩

def deleteLeft (z : Zipper α) : Zipper α := ⟨z.left.tail, z.right⟩

def deleteRight (z : Zipper α) : Zipper α := ⟨z.left, z.right.tail⟩

def moveLeft : Zipper α → Zipper α
  | ⟨a :: left, right⟩ => ⟨left, a :: right⟩
  | z => z

def moveRight : Zipper α → Zipper α
  | ⟨left, a :: right⟩ => ⟨a :: left, right⟩
  | z => z

def home (z : Zipper α) : Zipper α := ⟨[], z.toList⟩

/-- The list with the cursor behind it. -/
def ofList (xs : List α) : Zipper α := ⟨xs.reverse, []⟩

@[simp] theorem toList_ofList (xs : List α) : (ofList xs).toList = xs := by simp [toList, ofList]

@[simp] theorem toList_home (z : Zipper α) : z.home.toList = z.toList := by simp [home, toList]

@[simp] theorem toList_insert (a : α) (z : Zipper α) : (z.insert a).toList = z.left.reverse ++ a :: z.right := by
  simp [toList, insert]

@[simp] theorem toList_moveLeft (z : Zipper α) : z.moveLeft.toList = z.toList := by
  obtain ⟨_ | ⟨a, left⟩, right⟩ := z <;> simp [moveLeft, toList]

@[simp] theorem toList_moveRight (z : Zipper α) : z.moveRight.toList = z.toList := by
  obtain ⟨left, _ | ⟨a, right⟩⟩ := z <;> simp [moveRight, toList]

/-- The zipper is the list `xs` with the cursor at `i`. -/
structure IsAt (xs : List α) (i : Nat) (z : Zipper α) : Prop where
  list : xs = z.toList
  index : i = z.left.length

variable {xs : List α} {i : Nat} {z : Zipper α}

theorem IsAt.le (h : IsAt xs i z) : i ≤ xs.length := by
  rw [h.list, h.index, toList, List.length_append, List.length_reverse]
  omega

theorem IsAt.insert (h : IsAt xs i z) (a : α) : IsAt (xs.take i ++ a :: xs.drop i) (i + 1) (z.insert a) := by
  obtain ⟨rfl, rfl⟩ := h
  refine ⟨?_, rfl⟩
  rw [toList_insert, toList, List.take_left' (by simp), List.drop_left' (by simp)]

theorem IsAt.deleteLeft (h : IsAt xs i z) (hi : i ≠ 0) : IsAt (xs.eraseIdx (i - 1)) (i - 1) z.deleteLeft := by
  obtain ⟨rfl, rfl⟩ := h
  obtain ⟨_ | ⟨a, left⟩, right⟩ := z
  · exact absurd rfl hi
  · refine ⟨?_, rfl⟩
    simp only [toList, Zipper.deleteLeft, List.length_cons, Nat.add_sub_cancel, List.reverse_cons, List.append_assoc,
      List.tail_cons, List.singleton_append]
    rw [List.eraseIdx_append_of_length_le (by simp)]
    simp

theorem IsAt.deleteLeft_zero (h : IsAt xs 0 z) : IsAt xs 0 z.deleteLeft := by
  obtain ⟨rfl, hi⟩ := h
  obtain ⟨left, right⟩ := z
  obtain rfl := List.length_eq_zero_iff.mp hi.symm
  exact ⟨rfl, rfl⟩

theorem IsAt.deleteRight (h : IsAt xs i z) : IsAt (xs.eraseIdx i) i z.deleteRight := by
  obtain ⟨rfl, rfl⟩ := h
  refine ⟨?_, rfl⟩
  simp only [toList, Zipper.deleteRight]
  rw [List.eraseIdx_append_of_length_le (by simp)]
  simp

theorem IsAt.moveLeft (h : IsAt xs i z) : IsAt xs (i - 1) z.moveLeft := by
  obtain ⟨rfl, rfl⟩ := h
  refine ⟨(toList_moveLeft z).symm, ?_⟩
  obtain ⟨_ | ⟨a, left⟩, right⟩ := z <;> simp [Zipper.moveLeft]

theorem IsAt.moveRight (h : IsAt xs i z) : IsAt xs (min (i + 1) xs.length) z.moveRight := by
  obtain ⟨rfl, rfl⟩ := h
  refine ⟨(toList_moveRight z).symm, ?_⟩
  obtain ⟨left, _ | ⟨a, right⟩⟩ := z <;> simp [Zipper.moveRight, toList]

theorem IsAt.home (h : IsAt xs i z) : IsAt xs 0 z.home := ⟨by rw [h.list, toList_home], rfl⟩

theorem isAt_ofList (xs : List α) : IsAt xs xs.length (ofList xs) := ⟨(toList_ofList xs).symm, by simp [ofList]⟩

end Zipper

end Corehost.Lib
