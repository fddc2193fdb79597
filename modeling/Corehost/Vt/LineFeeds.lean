import Corehost.Lib.Transducer

/-!
# Line feeds in raw output

The model of `vt_append_str_lf_to_crlf` (`pipe_bridge.hpp`), which puts a
carriage return in front of each line feed that has none, over any number of
writes.

* `vtAppendStrLfToCrlf_agrees`: one write is a run of `lfToCrlf`, byte by byte;
* `lf_to_crlf_stream`: the writes together are the rewrite of the whole stream.
-/

namespace Corehost

open Lib

/-! ## The model -/

/-- The byte in front of place `i`: `last` is the one in front of the text. -/
def byteBefore (last : UInt8) (text : List UInt8) (i : Nat) : UInt8 := if i = 0 then last else text.getD (i - 1) 0

/-- The loop of `vt_append_str_lf_to_crlf`: `start`, and what has been appended. -/
def lfToCrlfLoop (last : UInt8) (text : List UInt8) (s : Nat × List UInt8) (i : Nat) : Nat × List UInt8 :=
  if text.getD i 0 = 0x0A ∧ byteBefore last text i ≠ 0x0D then
    (i + 1, s.2 ++ (text.drop s.1).take (i - s.1) ++ [0x0D, 0x0A])
  else s

/-- `vt_append_str_lf_to_crlf`: the bytes that are appended to the output, and
`_replay_last_byte`. -/
def vtAppendStrLfToCrlf (last : UInt8) (text : List UInt8) : List UInt8 × UInt8 :=
  let s := (List.range text.length).foldl (lfToCrlfLoop last text) (0, [])
  (s.2 ++ text.drop s.1, if text ≠ [] then text.getLastD 0 else last)

/-- The stream with a carriage return in front of each line feed that does not
follow one. -/
def crBeforeLf (stream : List UInt8) : List UInt8 :=
  (List.range stream.length).flatMap fun i =>
    if stream.getD i 0 = 0x0A ∧ (i = 0 ∨ stream.getD (i - 1) 0 ≠ 0x0D) then [0x0D, 0x0A] else [stream.getD i 0]

/-- Every line feed follows a carriage return. -/
def NoBareLf (stream : List UInt8) : Prop := ∀ i : Nat, stream[i]? = some 0x0A → 0 < i ∧ stream[i - 1]? = some 0x0D

/-! ## Byte by byte -/

/-- The state is the byte before. -/
def lfToCrlf : Transducer UInt8 UInt8 UInt8 := fun last b =>
  (if b = 0x0A ∧ last ≠ 0x0D then [0x0D, 0x0A] else [b], b)

open Transducer

variable {last : UInt8}

theorem run_lfToCrlf_state (last : UInt8) : ∀ text : List UInt8,
    (run lfToCrlf last text).2 = byteBefore last text text.length
  | [] => rfl
  | b :: text => by
    rw [run_cons]
    show (run lfToCrlf b text).2 = _
    rw [run_lfToCrlf_state b text]
    cases text with
    | nil => rfl
    | cons c text => simp [byteBefore]

theorem take_succ_getD {text : List UInt8} {i : Nat} (hi : i < text.length) :
    text.take (i + 1) = text.take i ++ [text.getD i 0] := by
  rw [List.take_add_one, List.getD_eq_getElem?_getD, List.getElem?_eq_getElem hi]
  rfl

theorem byteBefore_take {text : List UInt8} {i : Nat} (hi : i ≤ text.length) :
    byteBefore last (text.take i) (text.take i).length = byteBefore last text i := by
  rw [List.length_take, Nat.min_eq_left hi]
  unfold byteBefore
  split_ifs with h0
  · rfl
  · rw [List.getD_eq_getElem?_getD, List.getD_eq_getElem?_getD, List.getElem?_take, if_pos (by omega)]

theorem run_take_succ {text : List UInt8} {i : Nat} (hi : i < text.length) :
    (run lfToCrlf last (text.take (i + 1))).1 =
      (run lfToCrlf last (text.take i)).1 ++ (lfToCrlf (byteBefore last text i) (text.getD i 0)).1 := by
  rw [take_succ_getD hi, run_append, run_lfToCrlf_state, byteBefore_take (Nat.le_of_lt hi), run_cons]
  simp only [run_nil, List.append_nil]

/-- What the loop has appended, with the bytes since then, is the output of the bytes read. -/
theorem lfToCrlfLoop_run (last : UInt8) (text : List UInt8) : ∀ i ≤ text.length,
    ((List.range i).foldl (lfToCrlfLoop last text) (0, [])).1 ≤ i ∧
      ((List.range i).foldl (lfToCrlfLoop last text) (0, [])).2 ++
        (text.drop ((List.range i).foldl (lfToCrlfLoop last text) (0, [])).1).take
          (i - ((List.range i).foldl (lfToCrlfLoop last text) (0, [])).1) = (run lfToCrlf last (text.take i)).1
  | 0, _ => by simp
  | i + 1, hi => by
    obtain ⟨hle, hout⟩ := lfToCrlfLoop_run last text i (by omega)
    rw [List.range_succ, List.foldl_append, List.foldl_cons, List.foldl_nil, run_take_succ (by omega)]
    generalize (List.range i).foldl (lfToCrlfLoop last text) (0, []) = s at hle hout ⊢
    rw [lfToCrlfLoop, lfToCrlf]
    split_ifs with hlf
    · refine ⟨Nat.le_refl _, ?_⟩
      dsimp only
      rw [hout, Nat.sub_self, List.take_zero, List.append_nil]
    · refine ⟨by omega, ?_⟩
      rw [Nat.succ_sub hle, ← hout, List.append_assoc, take_succ_getD (by rw [List.length_drop]; omega)]
      congr 3
      rw [List.getD_eq_getElem?_getD, List.getD_eq_getElem?_getD, List.getElem?_drop]
      congr 2
      omega

/-- One write is a run over its bytes. -/
theorem vtAppendStrLfToCrlf_agrees : Agrees vtAppendStrLfToCrlf (fun b => [b]) lfToCrlf fun _ => True where
  state last text _ := by
    rw [run_lfToCrlf_state]
    unfold vtAppendStrLfToCrlf byteBefore
    cases text with
    | nil => rfl
    | cons b text => simp [List.getLastD_eq_getLast?, List.getLast?_eq_getElem?]
  output last text _ := by
    obtain ⟨hle, hout⟩ := lfToCrlfLoop_run last text text.length (Nat.le_refl _)
    rw [List.take_of_length_le (Nat.le_refl _), List.take_of_length_le (Nat.le_of_eq (List.length_drop ..))] at hout
    rw [List.flatMap_singleton', ← hout]
    rfl
  inv _ _ _ := trivial

/-! ## The whole stream -/

theorem run_eq_crBeforeLf {stream : List UInt8} (h : last ≠ 0x0D) : (run lfToCrlf last stream).1 = crBeforeLf stream := by
  have hrun (n : Nat) (hn : n ≤ stream.length) : (run lfToCrlf last (stream.take n)).1 =
      (List.range n).flatMap fun i =>
        if stream.getD i 0 = 0x0A ∧ (i = 0 ∨ stream.getD (i - 1) 0 ≠ 0x0D) then [0x0D, 0x0A] else [stream.getD i 0] := by
    induction n with
    | zero => rfl
    | succ n ih =>
      rw [run_take_succ (by omega), ih (by omega), List.range_succ, List.flatMap_append, List.flatMap_singleton]
      congr 1
      unfold lfToCrlf byteBefore
      by_cases h0 : n = 0
      · simp [h0, h]
      · simp [h0]
  rw [crBeforeLf, ← hrun stream.length (Nat.le_refl _), List.take_of_length_le (Nat.le_refl _)]

/-- Every line feed of the list follows a carriage return, when `last` is in front of it. -/
def Covered (last : UInt8) : List UInt8 → Prop
  | [] => True
  | b :: bs => (b = 0x0A → last = 0x0D) ∧ Covered b bs

theorem covered_run : ∀ (last : UInt8) (bs : List UInt8), Covered last (run lfToCrlf last bs).1
  | _, [] => trivial
  | last, b :: bs => by
    have ih := covered_run b bs
    rw [run_cons]
    show Covered last ((if b = 0x0A ∧ last ≠ 0x0D then [0x0D, 0x0A] else [b]) ++ (run lfToCrlf b bs).1)
    split_ifs with hlf
    · rw [hlf.1] at ih ⊢
      exact ⟨fun h => absurd h (by decide), fun _ => rfl, ih⟩
    · exact ⟨fun hb => by_contra fun hl => hlf ⟨hb, hl⟩, ih⟩

/-- A list whose line feeds are covered is left as it is. -/
theorem run_of_covered : ∀ {last : UInt8} {bs : List UInt8}, Covered last bs → (run lfToCrlf last bs).1 = bs
  | _, [], _ => rfl
  | last, b :: bs, ⟨hb, hbs⟩ => by
    rw [run_cons]
    show (if b = 0x0A ∧ last ≠ 0x0D then [0x0D, 0x0A] else [b]) ++ (run lfToCrlf b bs).1 = _
    rw [if_neg fun h => h.2 (hb h.1), run_of_covered hbs]
    rfl

theorem Covered.before : ∀ {last : UInt8} {bs : List UInt8}, Covered last bs → ∀ i : Nat, bs[i]? = some 0x0A →
    (i = 0 ∧ last = 0x0D) ∨ 0 < i ∧ bs[i - 1]? = some 0x0D
  | _, b :: bs, h, 0, hi => .inl ⟨rfl, h.1 (by simpa using hi)⟩
  | _, b :: bs, h, i + 1, hi => by
    rw [List.getElem?_cons_succ] at hi
    obtain ⟨rfl, hb⟩ | ⟨hpos, hb⟩ := h.2.before i hi
    · exact .inr ⟨Nat.one_pos, congrArg some hb⟩
    · obtain ⟨j, rfl⟩ := Nat.exists_eq_succ_of_ne_zero (Nat.pos_iff_ne_zero.mp hpos)
      exact .inr ⟨Nat.succ_pos _, hb⟩

/-- Every number of writes appends what the rewrite of the whole stream is. No
line feed in it is without a carriage return, and other writes of it are left
as they are. -/
theorem lf_to_crlf_stream (chunks : List (List UInt8)) :
    (runChunks vtAppendStrLfToCrlf 0 chunks).1 = crBeforeLf chunks.flatten ∧
      NoBareLf (runChunks vtAppendStrLfToCrlf 0 chunks).1 ∧
      ∀ again : List (List UInt8), again.flatten = (runChunks vtAppendStrLfToCrlf 0 chunks).1 →
        (runChunks vtAppendStrLfToCrlf 0 again).1 = again.flatten := by
  have hrun (cs : List (List UInt8)) : (runChunks vtAppendStrLfToCrlf 0 cs).1 = (run lfToCrlf 0 cs.flatten).1 := by
    have h := (runChunks_of_agrees vtAppendStrLfToCrlf_agrees (s := 0) cs trivial).1
    rwa [List.flatMap_singleton'] at h
  have hcovered : Covered 0 (runChunks vtAppendStrLfToCrlf 0 chunks).1 := by
    rw [hrun]
    exact covered_run 0 _
  refine ⟨?_, fun i hi => ?_, fun again hagain => ?_⟩
  · rw [hrun]
    exact run_eq_crBeforeLf (by decide)
  · exact (hcovered.before i hi).resolve_left fun h => absurd h.2 (by decide)
  · rw [hrun, hagain]
    exact run_of_covered hcovered

end Corehost
