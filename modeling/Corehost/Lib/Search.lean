import Mathlib.Data.List.Basic

/-!
# The longest prefix that fits

A binary search for the last number that a predicate holds of, and the longest
prefix of a list whose encoding fits a capacity:

* `searchLast_spec`: what the search finds, when the predicate holds of no
  number above one that it fails for;
* `LongestPrefix`: the prefix, for an encoding element by element;
* `longestPrefix_searchLast`: the search finds it.
-/

namespace Corehost.Lib

/-- The last number from `first` to `last` with `fits`, for at most `n` turns of the loop. -/
def searchLast (fits : Nat → Bool) : Nat → Nat → Nat → Nat
  | 0, first, _ => first
  | n + 1, first, last =>
    if first < last then
      let mid := first + (last - first + 1) / 2
      if fits mid then searchLast fits n mid last else searchLast fits n first (mid - 1)
    else first

/-- The invariant: `fits` holds of `first`, and of no number above `last`. -/
theorem searchLast_spec {fits : Nat → Bool} (hdown : ∀ i j, i ≤ j → fits j = true → fits i = true) :
    ∀ (n : Nat) {first last : Nat}, last - first ≤ n → first ≤ last → fits first = true →
      (∀ j, last < j → fits j = false) →
      (first ≤ searchLast fits n first last ∧ searchLast fits n first last ≤ last) ∧
        fits (searchLast fits n first last) = true ∧ ∀ j, searchLast fits n first last < j → fits j = false
  | 0, first, last, hn, hle, hfirst, hlast => by
    have heq : first = last := by omega
    subst heq
    exact ⟨⟨Nat.le_refl _, Nat.le_refl _⟩, hfirst, hlast⟩
  | n + 1, first, last, hn, hle, hfirst, hlast => by
    unfold searchLast
    by_cases hlt : first < last
    · rw [if_pos hlt]
      dsimp only
      by_cases hmid : fits (first + (last - first + 1) / 2) = true
      · rw [if_pos hmid]
        obtain ⟨h1, h2⟩ := searchLast_spec hdown n (by omega) (by omega) hmid hlast
        exact ⟨by omega, h2⟩
      · rw [if_neg hmid]
        have habove : ∀ j, first + (last - first + 1) / 2 - 1 < j → fits j = false := fun j hj =>
          Bool.eq_false_iff.mpr fun hfit => hmid (hdown _ j (by omega) hfit)
        obtain ⟨h1, h2⟩ := searchLast_spec hdown n (by omega) (by omega) hfirst habove
        exact ⟨by omega, h2⟩
    · rw [if_neg hlt]
      have heq : first = last := by omega
      subst heq
      exact ⟨⟨Nat.le_refl _, Nat.le_refl _⟩, hfirst, hlast⟩

variable {α β : Type*} {enc : α → List β} {text : List α} {cap k : Nat}

/-- The first `k` elements of `text` are the longest prefix with an encoding of at most `cap`. -/
structure LongestPrefix (enc : α → List β) (text : List α) (cap k : Nat) : Prop where
  le : k ≤ text.length
  fits : ((text.take k).flatMap enc).length ≤ cap
  longest : ∀ j, k < j → j ≤ text.length → cap < ((text.take j).flatMap enc).length

/-- A longer prefix has no shorter encoding. -/
theorem length_flatMap_take_le {i j : Nat} (h : i ≤ j) :
    ((text.take i).flatMap enc).length ≤ ((text.take j).flatMap enc).length := by
  have hsplit : text.take j = text.take i ++ (text.drop i).take (j - i) := by
    rw [← List.take_add, Nat.add_sub_cancel' h]
  rw [hsplit, List.flatMap_append, List.length_append]
  exact Nat.le_add_right _ _

theorem longestPrefix_searchLast (enc : α → List β) (text : List α) (cap : Nat) :
    LongestPrefix enc text cap (searchLast (fun n => decide (((text.take n).flatMap enc).length ≤ cap)) text.length 0
      text.length) := by
  -- A predicate that fails behind the end of the text, and is the same up to it.
  have hcongr : ∀ (n : Nat) {first last : Nat}, last ≤ text.length →
      searchLast (fun n => decide (((text.take n).flatMap enc).length ≤ cap)) n first last =
        searchLast (fun n => decide (n ≤ text.length) && decide (((text.take n).flatMap enc).length ≤ cap)) n first last := by
    intro n
    induction n with
    | zero => exact fun _ => rfl
    | succ n ih =>
      intro first last hle
      unfold searchLast
      dsimp only
      by_cases hlt : first < last
      · rw [if_pos hlt, if_pos hlt, ih hle, ih (by omega),
          decide_eq_true (show first + (last - first + 1) / 2 ≤ text.length by omega), Bool.true_and]
      · rw [if_neg hlt, if_neg hlt]
  have hdown : ∀ i j, i ≤ j → (decide (j ≤ text.length) && decide (((text.take j).flatMap enc).length ≤ cap)) = true →
      (decide (i ≤ text.length) && decide (((text.take i).flatMap enc).length ≤ cap)) = true := by
    intro i j hij hj
    have hlen : ((text.take i).flatMap enc).length ≤ ((text.take j).flatMap enc).length := length_flatMap_take_le hij
    simp only [Bool.and_eq_true, decide_eq_true_eq] at hj ⊢
    omega
  obtain ⟨⟨-, hle⟩, hfits, hlongest⟩ := searchLast_spec hdown text.length (show text.length - 0 ≤ text.length by omega)
    (Nat.zero_le _) (by simp) fun j hj => by simp [Nat.not_le.mpr hj]
  rw [← hcongr text.length (Nat.le_refl _)] at hle hfits hlongest
  simp only [Bool.and_eq_true, decide_eq_true_eq] at hfits
  refine ⟨hle, hfits.2, fun j hj hjl => ?_⟩
  have hj' := hlongest j hj
  simp only [Bool.and_eq_false_iff, decide_eq_false_iff_not] at hj'
  omega

/-- It is enough that the next element does not fit. -/
theorem LongestPrefix.of_fold (hle : k ≤ text.length) (hfits : ((text.take k).flatMap enc).length ≤ cap)
    (hnext : k < text.length → cap < ((text.take (k + 1)).flatMap enc).length) : LongestPrefix enc text cap k where
  le := hle
  fits := hfits
  longest j hj hjl := by
    have hlen : ((text.take (k + 1)).flatMap enc).length ≤ ((text.take j).flatMap enc).length :=
      length_flatMap_take_le hj
    have := hnext (by omega)
    omega

end Corehost.Lib
