import Mathlib.Data.List.Basic

/-!
# Raw buffers

Memory of a fixed capacity that is written from the front.

* `putAll_of_fits`: values that fit are all written;
* `putAll_le`: nothing is written outside the memory;
* `putChunks_eq`: chunk after chunk up to the first that does not fit, never
  outside the memory;
* `putAll_new`, `putChunks_new`: the same for memory that is still empty.
-/

namespace Corehost.Lib

/-- Memory for `capacity` values, and those written so far. -/
structure RawBuffer (α : Type*) where
  capacity : Nat
  data : List α := []
deriving DecidableEq, Repr

namespace RawBuffer

variable {α : Type*} {b : RawBuffer α}

/-- Writes a value behind the others; nothing for a write outside the memory. -/
def put (b : RawBuffer α) (v : α) : Option (RawBuffer α) :=
  if b.data.length < b.capacity then some { b with data := b.data ++ [v] } else none

/-- Writes one value after the other. -/
def putAll (b : RawBuffer α) : List α → Option (RawBuffer α)
  | [] => some b
  | v :: vs => (b.put v).bind (putAll · vs)

/-- Writes one chunk after the other, up to the first that does not fit. -/
def putChunks (b : RawBuffer α) : List (List α) → Option (Bool × RawBuffer α)
  | [] => some (true, b)
  | c :: cs => if b.data.length + c.length > b.capacity then some (false, b) else (b.putAll c).bind (putChunks · cs)

theorem put_of_fits {v : α} (h : b.data.length < b.capacity) : b.put v = some { b with data := b.data ++ [v] } := if_pos h

theorem putAll_append (vs ws : List α) : b.putAll (vs ++ ws) = (b.putAll vs).bind (putAll · ws) := by
  induction vs generalizing b with
  | nil => rfl
  | cons v vs ih =>
    rw [List.cons_append, putAll, putAll, Option.bind_assoc]
    exact congrArg _ (funext fun _ => ih)

theorem putAll_singleton (v : α) : b.putAll [v] = b.put v := by
  rw [putAll]
  exact Option.bind_fun_some _

theorem putAll_of_fits {vs : List α} (h : b.data.length + vs.length ≤ b.capacity) :
    b.putAll vs = some { b with data := b.data ++ vs } := by
  induction vs generalizing b with
  | nil => rw [putAll, List.append_nil]
  | cons v vs ih =>
    rw [List.length_cons] at h
    rw [putAll, put_of_fits (by omega), Option.bind_some, ih (by simp only [List.length_append, List.length_singleton]; omega),
      List.append_assoc]
    rfl

theorem putAll_data {b' : RawBuffer α} {vs : List α} (h : b.putAll vs = some b') : b'.data = b.data ++ vs := by
  induction vs generalizing b with
  | nil =>
    obtain rfl := Option.some_inj.mp h
    exact (List.append_nil _).symm
  | cons v vs ih =>
    obtain ⟨m, hput, h⟩ := Option.bind_eq_some_iff.mp h
    unfold put at hput
    split_ifs at hput
    obtain rfl := Option.some_inj.mp hput
    rw [@ih { b with data := b.data ++ [v] } h, List.append_assoc]
    rfl

/-- Nothing is written outside the memory. -/
theorem putAll_le {b' : RawBuffer α} {vs : List α} (h : b.putAll vs = some b') (hb : b.data.length ≤ b.capacity) :
    b'.capacity = b.capacity ∧ b'.data.length ≤ b.capacity := by
  induction vs generalizing b with
  | nil =>
    obtain rfl := Option.some_inj.mp h
    exact ⟨rfl, hb⟩
  | cons v vs ih =>
    obtain ⟨m, hput, h⟩ := Option.bind_eq_some_iff.mp h
    unfold put at hput
    split_ifs at hput with hroom
    obtain rfl := Option.some_inj.mp hput
    have hnext : (b.data ++ [v]).length ≤ b.capacity := by rwa [List.length_append, List.length_singleton]
    exact @ih { b with data := b.data ++ [v] } h hnext

/-- What is written is a whole number of chunks; everything exactly when it fits. -/
theorem putChunks_eq {cs : List (List α)} (h : b.data.length ≤ b.capacity) :
    ∃ k, k ≤ cs.length ∧ b.putChunks cs =
        some (decide (b.data.length + cs.flatten.length ≤ b.capacity), { b with data := b.data ++ (cs.take k).flatten }) ∧
      b.data.length + (cs.take k).flatten.length ≤ b.capacity ∧
      (b.data.length + cs.flatten.length ≤ b.capacity → k = cs.length) := by
  induction cs generalizing b with
  | nil =>
    refine ⟨0, Nat.le_refl _, ?_, ?_, fun _ => rfl⟩
    · rw [putChunks, List.take_nil, List.flatten_nil, List.append_nil, List.length_nil, Nat.add_zero, decide_eq_true h]
    · rwa [List.take_nil, List.flatten_nil, List.length_nil, Nat.add_zero]
  | cons c cs ih =>
    rw [putChunks, List.flatten_cons, List.length_append]
    by_cases hfits : b.data.length + c.length > b.capacity
    · have hno : ¬ b.data.length + (c.length + cs.flatten.length) ≤ b.capacity := by omega
      refine ⟨0, Nat.zero_le _, ?_, ?_, fun hle => absurd hle hno⟩
      · rw [if_pos hfits, List.take_zero, List.flatten_nil, List.append_nil, decide_eq_false hno]
      · rwa [List.take_zero, List.flatten_nil, List.length_nil, Nat.add_zero]
    · rw [if_neg hfits, putAll_of_fits (Nat.le_of_not_lt hfits), Option.bind_some]
      have hroom : (b.data ++ c).length ≤ b.capacity := by rw [List.length_append]; omega
      obtain ⟨k, hk, heq, hle, hall⟩ := @ih { b with data := b.data ++ c } hroom
      simp only [List.length_append, Nat.add_assoc, List.append_assoc] at heq hle hall
      refine ⟨k + 1, Nat.succ_le_succ hk, ?_, ?_, fun h => congrArg (· + 1) (hall h)⟩
      · rw [heq, List.take_succ_cons, List.flatten_cons]
      · rwa [List.take_succ_cons, List.flatten_cons, List.length_append]

theorem putAll_new {vs : List α} {n : Nat} (h : vs.length ≤ n) : ((mk n []).putAll vs).map (·.data) = some vs := by
  rw [putAll_of_fits (by rwa [List.length_nil, Nat.zero_add])]
  rfl

/-- Chunks into an empty buffer: a prefix, and all of it exactly when it fits. -/
theorem putChunks_new (chunks : List (List α)) (n : Nat) :
    ∃ written, ((mk n []).putChunks chunks).map (fun r => (r.1, r.2.data)) =
        some (decide (chunks.flatten.length ≤ n), written) ∧
      written <+: chunks.flatten ∧ written.length ≤ n ∧ (chunks.flatten.length ≤ n → written = chunks.flatten) := by
  obtain ⟨k, -, heq, hle, hall⟩ := @putChunks_eq _ ⟨n, []⟩ chunks (Nat.zero_le _)
  simp only [List.length_nil, Nat.zero_add, List.nil_append] at heq hle hall
  refine ⟨(chunks.take k).flatten, by rw [heq]; rfl, ?_, hle, fun h => by rw [hall h, List.take_length]⟩
  exact ⟨(chunks.drop k).flatten, by rw [← List.flatten_append, List.take_append_drop]⟩

end RawBuffer

end Corehost.Lib
