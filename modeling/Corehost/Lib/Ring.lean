import Mathlib.Data.List.Rotate
import Mathlib.Data.Nat.ModEq
import Mathlib.Tactic.SplitIfs

/-!
# Elements that move along a list

* `Slid`: a range of elements has moved, and what it has uncovered is filled;
  `slide` is such a list;
* `slid_of_moved_down`, `slid_of_moved_up`: the elements have been moved first,
  and the uncovered ones filled after that;
* `moveForward`, `moveBackward`: `std::move` and `std::move_backward` inside a
  list. Nothing is known of an element that has been moved from;
* `rotate_modifyRange`: a ring is a list and an origin, and its elements in
  order are the rotated list.
-/

namespace Corehost.Lib

variable {α : Type*}

/-- `new` is `old` with the elements `lo, …, hi` moved by `d`; the elements that
this uncovers are `Filled`. -/
def Slid (lo hi d : Int) (Filled : α → Prop) (old new : List α) : Prop :=
  new.length = old.length ∧ ∀ i : Nat, i < old.length →
    if lo ≤ i ∧ i ≤ hi then
      if lo ≤ i - d ∧ i - d ≤ hi then new[i]? = old[(i - d).toNat]? else ∃ x, new[i]? = some x ∧ Filled x
    else new[i]? = old[i]?

/-- The list itself, with `f` for what fills an uncovered element. -/
def slide (lo hi d : Int) (f : α → α) (xs : List α) : List α :=
  xs.mapIdx fun i x => if lo ≤ i ∧ i ≤ hi then if lo ≤ i - d ∧ i - d ≤ hi then xs.getD (i - d).toNat x else f x else x

theorem slid_slide {lo hi d : Int} {Filled : α → Prop} {f : α → α} {xs : List α} (h0 : 0 ≤ lo) (hhi : hi < xs.length)
    (hf : ∀ x, Filled (f x)) : Slid lo hi d Filled xs (slide lo hi d f xs) := by
  refine ⟨List.length_mapIdx, fun i hi' => ?_⟩
  rw [slide, List.getElem?_mapIdx, List.getElem?_eq_getElem hi', Option.map_some]
  split_ifs with h1 h2
  · rw [List.getElem?_eq_getElem (by omega), List.getD_eq_getElem?_getD, List.getElem?_eq_getElem (by omega),
      Option.getD_some]
  · exact ⟨_, rfl, hf _⟩
  · rfl

/-- Related lists stay related when the same range slides in both. -/
theorem Slid.rel {R : α → α → Prop} {lo hi d : Int} {Filled : α → Prop} {xs ys xs' ys' : List α}
    (h : Slid lo hi d Filled xs xs') (h' : Slid lo hi d Filled ys ys') (hlen : xs.length = ys.length)
    (hrel : ∀ (i : Nat) x y, xs[i]? = some x → ys[i]? = some y → R x y) (hf : ∀ x y, Filled x → Filled y → R x y)
    (i : Nat) (x y : α) (hx : xs'[i]? = some x) (hy : ys'[i]? = some y) : R x y := by
  have hi : i < xs.length := by
    rw [← h.1]
    exact (List.getElem?_eq_some_iff.mp hx).1
  have hxs := h.2 i hi
  have hys := h'.2 i (by omega)
  split_ifs at hxs hys with h1 h2
  · exact hrel _ _ _ (hxs.symm.trans hx) (hys.symm.trans hy)
  · obtain ⟨x', hx', hfx⟩ := hxs
    obtain ⟨y', hy', hfy⟩ := hys
    obtain rfl := Option.some_inj.mp (hx'.symm.trans hx)
    obtain rfl := Option.some_inj.mp (hy'.symm.trans hy)
    exact hf _ _ hfx hfy
  · exact hrel _ _ _ (hxs.symm.trans hx) (hys.symm.trans hy)

theorem slid_of_empty {lo hi d : Int} (h : hi < lo) {Filled : α → Prop} {xs : List α} : Slid lo hi d Filled xs xs :=
  ⟨rfl, fun i _ => by rw [if_neg (by omega)]⟩

/-! ## Filling -/

/-- `for (i = a; i != a + n; ++i) f(xs[i])`. -/
def modifyRange (f : α → α) (xs : List α) (a n : Nat) : List α := (List.range' a n).foldl (fun xs i => xs.modify i f) xs

theorem getElem?_modifyRange (f : α → α) : ∀ (n : Nat) (xs : List α) (a i : Nat),
    (modifyRange f xs a n)[i]? = if a ≤ i ∧ i < a + n then xs[i]?.map f else xs[i]?
  | 0, xs, a, i => by rw [if_neg (by omega)]; rfl
  | n + 1, xs, a, i => by
    have ih := getElem?_modifyRange f n (xs.modify a f) (a + 1) i
    have hstep : modifyRange f xs a (n + 1) = modifyRange f (xs.modify a f) (a + 1) n := rfl
    rw [hstep, ih, List.getElem?_modify]
    split_ifs <;> first | omega | rfl | simp

theorem length_modifyRange (f : α → α) (xs : List α) (a n : Nat) : (modifyRange f xs a n).length = xs.length := by
  induction n generalizing xs a with
  | zero => rfl
  | succ n ih => exact (ih (xs.modify a f) (a + 1)).trans (List.length_modify ..)

section Fill

variable {Filled : α → Prop} {f : α → α} {old moved : List α} {a n k : Nat} {d : Int}

/-- Moved towards the start by `k`, and filled at the end of the range. A move
by more than the range fills all of it. -/
theorem slid_of_moved_down (hf : ∀ x, Filled (f x)) (hd : d = -k ∨ n = 0 ∧ d ≤ -k)
    (hlen : moved.length = old.length) (hin : ∀ j, a ≤ j → j < a + n → moved[j]? = old[j + k]?)
    (hout : ∀ j, j < a ∨ a + n + k ≤ j → moved[j]? = old[j]?) :
    Slid a (a + n + k - 1) d Filled old (modifyRange f moved (a + n) k) := by
  refine ⟨by rw [length_modifyRange, hlen], fun i hi => ?_⟩
  rw [getElem?_modifyRange]
  by_cases h1 : (a : Int) ≤ i ∧ (i : Int) ≤ a + n + k - 1
  · rw [if_pos h1]
    by_cases h2 : a + n ≤ i ∧ i < a + n + k
    · rw [if_neg (by omega), if_pos h2, List.getElem?_eq_getElem (by omega)]
      exact ⟨_, rfl, hf _⟩
    · rw [if_pos (by omega), if_neg h2, hin i (by omega) (by omega)]
      congr 1
      omega
  · rw [if_neg h1, if_neg (by omega)]
    exact hout i (by omega)

/-- Moved towards the end by `k`, and filled at the start of the range. -/
theorem slid_of_moved_up (hf : ∀ x, Filled (f x)) (hd : d = k ∨ n = 0 ∧ k ≤ d)
    (hlen : moved.length = old.length) (hin : ∀ j, a ≤ j → j < a + n → moved[j + k]? = old[j]?)
    (hout : ∀ j, j < a ∨ a + n + k ≤ j → moved[j]? = old[j]?) :
    Slid a (a + n + k - 1) d Filled old (modifyRange f moved a k) := by
  refine ⟨by rw [length_modifyRange, hlen], fun i hi => ?_⟩
  rw [getElem?_modifyRange]
  by_cases h1 : (a : Int) ≤ i ∧ (i : Int) ≤ a + n + k - 1
  · rw [if_pos h1]
    by_cases h2 : a ≤ i ∧ i < a + k
    · rw [if_neg (by omega), if_pos h2, List.getElem?_eq_getElem (by omega)]
      exact ⟨_, rfl, hf _⟩
    · have := hin (i - k) (by omega) (by omega)
      rw [show i - k + k = i by omega] at this
      rw [if_pos (by omega), if_neg h2, this]
      congr 1
      omega
  · rw [if_neg h1, if_neg (by omega)]
    exact hout i (by omega)

end Fill

/-! ## Moving elements -/

/-- `xs[dst] = std::move(xs[src])`. -/
def moveElement (emptied : α → α) (xs : List α) (src dst : Nat) : List α :=
  match xs[src]? with
  | some x => (xs.set src (emptied x)).set dst x
  | none => xs

/-- `std::move(first + k, first + k + n, first)`, where `a` is the index of `first`. -/
def moveForward (emptied : α → α) (xs : List α) (a k n : Nat) : List α :=
  (List.range n).foldl (fun xs i => moveElement emptied xs (a + k + i) (a + i)) xs

/-- `std::move_backward(first, first + n, first + n + k)`: the last element first. -/
def moveBackward (emptied : α → α) (xs : List α) (a k n : Nat) : List α :=
  (List.range n).foldl (fun xs i => moveElement emptied xs (a + n - 1 - i) (a + n - 1 - i + k)) xs

variable {emptied : α → α} {xs : List α} {a k n j src dst : Nat}

theorem length_moveElement : (moveElement emptied xs src dst).length = xs.length := by
  unfold moveElement
  split <;> simp

theorem getElem?_moveElement (hs : src < xs.length) (hd : dst < xs.length) (hne : j ≠ src ∨ j = dst) :
    (moveElement emptied xs src dst)[j]? = if j = dst then xs[src]? else xs[j]? := by
  unfold moveElement
  rw [List.getElem?_eq_getElem hs]
  dsimp only
  rw [List.getElem?_set, List.length_set]
  by_cases h : dst = j
  · rw [if_pos h, if_pos hd, if_pos h.symm]
  · rw [if_neg h, if_neg (Ne.symm h), List.getElem?_set_ne (by omega)]

theorem length_foldl_moveElement (f g : Nat → Nat) (is : List Nat) :
    (is.foldl (fun xs i => moveElement emptied xs (f i) (g i)) xs).length = xs.length :=
  List.foldlRecOn (motive := fun ys : List α => ys.length = xs.length) _ _ rfl fun _ hy _ _ => length_moveElement.trans hy

theorem length_moveForward : (moveForward emptied xs a k n).length = xs.length := length_foldl_moveElement _ _ _

theorem length_moveBackward : (moveBackward emptied xs a k n).length = xs.length := length_foldl_moveElement _ _ _

/-- The elements in front of the last `k` of the range have been moved there;
those outside the range stay. -/
theorem getElem?_moveForward (hk : 0 < k) : ∀ {n j : Nat}, a + n + k ≤ xs.length → (j < a + n ∨ a + n + k ≤ j) →
    (moveForward emptied xs a k n)[j]? = if a ≤ j ∧ j < a + n then xs[j + k]? else xs[j]?
  | 0, j, _, _ => by
    rw [if_neg (by omega)]
    rfl
  | n + 1, j, hfit, hj => by
    have hlen : (moveForward emptied xs a k n).length = xs.length := length_moveForward
    have hstep : moveForward emptied xs a k (n + 1) = moveElement emptied (moveForward emptied xs a k n) (a + k + n) (a + n) := by
      rw [moveForward, List.range_succ, List.foldl_append]
      rfl
    rw [hstep, getElem?_moveElement (by omega) (by omega) (by omega)]
    split
    · rename_i hd
      rw [getElem?_moveForward hk (by omega) (by omega), if_neg (by omega), if_pos (by omega)]
      congr 1
      omega
    · rw [getElem?_moveForward hk (by omega) (by omega)]
      split_ifs <;> first | omega | rfl

theorem getElem?_moveBackward (hk : 0 < k) (hfit : a + n + k ≤ xs.length) (hj : j < a ∨ a + k ≤ j) :
    (moveBackward emptied xs a k n)[j]? = if a + k ≤ j ∧ j < a + k + n then xs[j - k]? else xs[j]? := by
  -- after the first `m` moves
  have hsteps : ∀ m ≤ n, ∀ j, j < a + n - m ∨ a + n - m + k ≤ j →
      ((List.range m).foldl (fun xs i => moveElement emptied xs (a + n - 1 - i) (a + n - 1 - i + k)) xs)[j]? =
        if a + n - m + k ≤ j ∧ j < a + n + k then xs[j - k]? else xs[j]? := by
    intro m
    induction m with
    | zero =>
      intro _ j _
      rw [if_neg (by omega)]
      rfl
    | succ m ih =>
      intro hm j hj
      have hlen : ((List.range m).foldl
          (fun xs i => moveElement emptied xs (a + n - 1 - i) (a + n - 1 - i + k)) xs).length = xs.length :=
        length_foldl_moveElement _ _ _
      rw [List.range_succ, List.foldl_append, List.foldl_cons, List.foldl_nil,
        getElem?_moveElement (by omega) (by omega) (by omega)]
      split
      · rename_i hd
        rw [ih (by omega) _ (by omega), if_neg (by omega), if_pos (by omega)]
        congr 1
        omega
      · rw [ih (by omega) j (by omega)]
        split_ifs <;> first | omega | rfl
  have h := hsteps n le_rfl j (by omega)
  rw [moveBackward, h]
  split_ifs <;> first | omega | rfl

/-! ## Rings -/

/-- Element `i` of a ring, changed in the list. -/
theorem rotate_modify (f : α → α) (xs : List α) {o i : Nat} (hi : i < xs.length) :
    (xs.modify ((o + i) % xs.length) f).rotate o = (xs.rotate o).modify i f := by
  refine List.ext_getElem? fun j => ?_
  rcases Nat.lt_or_ge j xs.length with hj | hj
  · have hiff : (o + i) % xs.length = (j + o) % xs.length ↔ i = j := by
      rw [Nat.add_comm j]
      exact ⟨fun h => (Nat.ModEq.add_left_cancel' o h).eq_of_lt_of_lt hi hj, fun h => by rw [h]⟩
    rw [List.getElem?_rotate (by simpa using hj), List.length_modify, List.getElem?_modify, List.getElem?_modify,
      List.getElem?_rotate hj]
    by_cases h : i = j
    · simp only [if_pos (hiff.mpr h), if_pos h]
    · simp only [if_neg (fun hh => h (hiff.mp hh)), if_neg h]
  · rw [List.getElem?_eq_none (by simpa using hj), List.getElem?_eq_none (by simpa using hj)]

/-- A range of elements of a ring, changed in the list. -/
theorem rotate_modifyRange (f : α → α) : ∀ (n : Nat) (xs : List α) (o a : Nat), a + n ≤ xs.length →
    ((List.range' a n).foldl (fun xs i => xs.modify ((o + i) % xs.length) f) xs).rotate o = modifyRange f (xs.rotate o) a n
  | 0, _, _, _, _ => rfl
  | n + 1, xs, o, a, h => by
    have ih := rotate_modifyRange f n (xs.modify ((o + a) % xs.length) f) o (a + 1) (by rw [List.length_modify]; omega)
    rw [List.range'_succ, List.foldl_cons, ih, rotate_modify f xs (by omega), modifyRange, modifyRange, List.range'_succ,
      List.foldl_cons]

end Corehost.Lib
