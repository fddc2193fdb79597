import Corehost.Parser.Context
import Corehost.Parser.Csi

/-!
# Counts and positions of CSI sequences

A parameter is accumulated in a `short`, so that its value is taken modulo
`0x10000` before `_clamp` sees it. `paramValues` are the decimal values of the
parameters, as numbers of any size.

* `SameParams`: the parameters that two states have collected are the same;
* `read_paramValues`: a body collects its decimal values, each cut to a `short`;
* `csi_amounts_saturate_iff`: the counts and positions of a message are the
  limited values exactly when none of them has been cut to another one.
-/

namespace Corehost

open Lib Lib.Transducer

/-- The decimal values of the parameters of a body. Of the first one, `acc` has been read. -/
def paramValues (acc : Nat) : List Char32 → List Nat
  | [] => [acc]
  | ch :: body =>
    if ch = 0x3B then acc :: paramValues 0 body
    else if isDigit ch then paramValues (acc * 10 + (ch - 0x30)) body
    else paramValues acc body

/-- A limited count or position. -/
def saturate (v : Nat) : Int := if v = 0 then 1 else min v 32767

/-- The counts and positions of a payload. -/
def VtPayload.amounts : VtPayload → List Int
  | .count n => [n]
  | .row r => [r]
  | .col c => [c]
  | .position r c => [r, c]
  | _ => []

/-- How many parameters the final character takes as counts or positions. -/
def amountParams (priv : Bool) (final : Char32) : Nat :=
  if final ∈ [0x40, 0x49, 0x4C, 0x4D, 0x50, 0x53, 0x54, 0x58, 0x5A] then 1
  else if priv then 0
  else if final ∈ [0x41, 0x42, 0x43, 0x44, 0x45, 0x46, 0x47, 0x64] then 1
  else if final ∈ [0x48, 0x66] then 2
  else 0

namespace CsiParams

variable {c c' : CsiParams} {body : List Char32}

/-! ## The collected parameters -/

structure SameParams (c c' : CsiParams) : Prop where
  params : c.params = c'.params
  paramIndex : c.paramIndex = c'.paramIndex
  csiOverflow : c.csiOverflow = c'.csiOverflow

theorem SameParams.push (h : SameParams c c') (v : Int) : SameParams (c.push v) (c'.push v) := by
  obtain ⟨hp, hi, ho⟩ := h
  unfold CsiParams.push addParam
  dsimp only
  rw [hi]
  split
  · exact ⟨by dsimp only; rw [hp], rfl, ho⟩
  · exact ⟨hp, by dsimp only, rfl⟩

theorem SameParams.foldl_push : ∀ (vs : List Int) {c c' : CsiParams}, SameParams c c' →
    SameParams (vs.foldl CsiParams.push c) (vs.foldl CsiParams.push c')
  | [], _, _, h => h
  | v :: vs, _, _, h => SameParams.foldl_push vs (h.push v)

theorem SameParams.trans {c'' : CsiParams} (h : SameParams c c') (h' : SameParams c' c'') : SameParams c c'' :=
  ⟨h.params.trans h'.params, h.paramIndex.trans h'.paramIndex, h.csiOverflow.trans h'.csiOverflow⟩

theorem i16_digit (acc d : Nat) : i16 (i16 acc * 10 + d) = i16 ((acc * 10 + d : Nat) : Int) := by
  unfold i16
  rw [Int.bmod_def, Int.bmod_def, Int.bmod_def]
  omega

/-- The characters of a body that are neither digits nor semicolons collect nothing. -/
theorem read_other (c : CsiParams) {ch : Char32} (h : ch ≠ 0x3B) (hd : isDigit ch = false) :
    SameParams (c.read ch) c ∧ (c.read ch).currentParam = c.currentParam := by
  have hclass : classifyCsiChar ch ≠ .digit ∧ classifyCsiChar ch ≠ .semicolon := by
    simp only [isDigit, Bool.and_eq_false_iff, decide_eq_false_iff_not] at hd
    unfold classifyCsiChar
    constructor <;> split_ifs <;> simp_all
  unfold read
  split <;> first | exact ⟨⟨rfl, rfl, rfl⟩, rfl⟩ | exact absurd ‹_› hclass.1 | exact absurd ‹_› hclass.2

/-- A body collects the values of its parameters, each cut to a `short`. -/
theorem read_paramValues : ∀ (body : List Char32) {c : CsiParams} {acc : Nat}, c.currentParam = i16 acc →
    SameParams (body.foldl read c).addParam (((paramValues acc body).map fun v : Nat => i16 v).foldl CsiParams.push c)
  | [], c, acc, h => by
    simp only [List.foldl_nil, paramValues, List.map_cons, List.map_nil, List.foldl_cons, CsiParams.push, ← h]
    exact ⟨rfl, rfl, rfl⟩
  | ch :: body, c, acc, h => by
    rw [List.foldl_cons, paramValues]
    split_ifs with hsemi hdigit
    · have hread : c.read ch = c.push (i16 acc) := by
        rw [read, show classifyCsiChar ch = .semicolon by rw [hsemi]; rfl, CsiParams.push, ← h]
      rw [hread, List.map_cons, List.foldl_cons]
      exact read_paramValues body (push_currentParam _ _)
    · have hread : c.read ch = { c with currentParam := i16 (i16 acc * 10 + (ch - 0x30 : Nat)), hasParam := true } := by
        rw [read, classifyCsiChar_digit hdigit, h]
        rfl
      rw [hread, i16_digit]
      generalize acc * 10 + (ch - 0x30) = n
      have hread' := @read_paramValues body { c with currentParam := i16 n, hasParam := true } n (by dsimp only)
      exact hread'.trans (SameParams.foldl_push _ (by constructor <;> dsimp only))
    · obtain ⟨hsame, hcur⟩ := read_other c hsemi (Bool.eq_false_iff.mpr hdigit)
      exact (read_paramValues body (hcur.trans h)).trans (SameParams.foldl_push _ hsame)

theorem addParam_privateMarker (c : CsiParams) : c.addParam.privateMarker = c.privateMarker := by
  unfold addParam
  split <;> rfl

theorem read_privateMarker (c : CsiParams) (ch : Char32) :
    (c.read ch).privateMarker = (c.privateMarker || decide (ch = 0x3F)) := by
  by_cases h : ch = 0x3F
  · subst h
    simp [read, classifyCsiChar, isC0OrDel]
  · have hclass : classifyCsiChar ch ≠ .privateMarker := by
      unfold classifyCsiChar
      split_ifs <;> simp
    unfold read
    split <;> simp_all [addParam_privateMarker]

theorem foldl_read_privateMarker : ∀ (body : List Char32) (c : CsiParams),
    (body.foldl read c).addParam.privateMarker = (c.privateMarker || decide (0x3F ∈ body))
  | [], c => by simp [addParam_privateMarker]
  | ch :: body, c => by
    rw [List.foldl_cons, foldl_read_privateMarker body, read_privateMarker, Bool.or_assoc]
    simp [eq_comm]

/-- The parameter as `_get_param` finds it, when there are no more than `MAX_PARAMS`. -/
theorem getParam_of_body (hn : (paramValues 0 body).length ≤ MAX_PARAMS) (i : Nat) (d : Int) :
    (body.foldl read {}).addParam.getParam i d = (((paramValues 0 body).map fun v : Nat => i16 v)[i]?).getD d := by
  obtain ⟨hp, hi, -⟩ := @read_paramValues body {} 0 rfl
  generalize hvs : (paramValues 0 body).map (fun v : Nat => i16 v) = vs at hp hi ⊢
  have hlen : vs.length ≤ MAX_PARAMS := by rw [← hvs, List.length_map]; exact hn
  have htake := ofValues_take vs
  have hindex := ofValues_paramIndex vs
  rw [ofValues] at htake hindex
  rw [Nat.min_eq_left hlen] at hindex
  rw [hindex, List.take_of_length_le hlen] at htake
  rw [getParam, hp, hi, hindex]
  split_ifs with hlt
  · rw [List.getD_eq_getElem?_getD, ← List.getElem?_take_of_lt hlt, htake, List.getElem?_eq_getElem hlt]
    rfl
  · rw [List.getElem?_eq_none (by omega), Option.getD_none]

theorem overflow_of_body (hn : (paramValues 0 body).length ≤ MAX_PARAMS) :
    (body.foldl read {}).addParam.csiOverflow = false := by
  obtain ⟨-, -, ho⟩ := @read_paramValues body {} 0 rfl
  have hof := ofValues_overflow ((paramValues 0 body).map fun v : Nat => i16 v)
  rw [ofValues, List.length_map] at hof
  rw [ho, hof]
  simpa using hn

end CsiParams

/-! ## The message -/

theorem amounts_csiMessage (raw : List Char32) (r : VtMessageId × VtMessage) :
    (VtParser.csiMessage raw r).message.payload.amounts = if r.1 = .continue_ then [] else r.2.payload.amounts := by
  unfold VtParser.csiMessage
  split_ifs <;> rfl

/-- The amounts of a message, in terms of the parameters that `_get_param` returns. -/
theorem amounts_dispatchCsi {c : CsiParams} (ho : c.csiOverflow = false) (raw : List Char32) {final : Char32}
    (hf : classifyCsiChar final = .final) :
    (VtParser.csiMessage raw (dispatchCsi c final {})).message.payload.amounts =
      (List.range (amountParams c.privateMarker final)).map fun i =>
        if c.getParam i 1 = 0 then 1 else CsiParams.clamp (c.getParam i 1) := by
  have hrange : 0x40 ≤ final ∧ final ≤ 0x7E := by
    unfold classifyCsiChar at hf
    split_ifs at hf
    assumption
  obtain ⟨h1, h2⟩ := hrange
  have hfirst : (if c.paramIndex > 0 then c.getParam 0 1 else 1) = c.getParam 0 1 := by
    unfold CsiParams.getParam
    split_ifs <;> rfl
  have hlimit (v : Int) : CsiParams.clamp (if v = 0 then 1 else v) = if v = 0 then 1 else CsiParams.clamp v := by
    split_ifs <;> rfl
  rw [amounts_csiMessage, dispatchCsi, hfirst, ho]
  cases hp : c.privateMarker <;> interval_cases final <;>
    simp [hlimit, CsiParams.getPositiveParam, amountParams, VtPayload.amounts, List.range_succ]
  -- the sequences with a condition on a parameter, none of which carries an amount
  all_goals
    intro _
    first
    | split_ifs <;> rfl
    | cases sgrParams {} (c.params.take c.paramIndex) <;> rfl

theorem cut_eq_saturate_iff (v : Nat) :
    (if i16 v = 0 then 1 else CsiParams.clamp (i16 v)) = saturate v ↔ v ≤ 32767 ∨ v % 0x10000 = 32767 := by
  unfold saturate CsiParams.clamp i16
  rw [Int.bmod_def]
  split_ifs <;> omega

theorem i16_zero : i16 0 = 0 := by
  unfold i16
  rw [Int.bmod_def]
  omega

/-- A parameter that is taken as a count or position. -/
theorem amount_of_body {body : List Char32} (hn : (paramValues 0 body).length ≤ MAX_PARAMS) (i : Nat) :
    (if (body.foldl CsiParams.read {}).addParam.getParam i 1 = 0 then 1
      else CsiParams.clamp ((body.foldl CsiParams.read {}).addParam.getParam i 1)) = saturate ((paramValues 0 body).getD i 0) ↔
      (paramValues 0 body).getD i 0 ≤ 32767 ∨ (paramValues 0 body).getD i 0 % 0x10000 = 32767 := by
  rw [← cut_eq_saturate_iff, CsiParams.getParam_of_body hn, List.getElem?_map, List.getD_eq_getElem?_getD]
  cases (paramValues 0 body)[i]? with
  | none =>
    have h0 : i16 ((0 : Nat) : Int) = 0 := i16_zero
    rw [Option.map_none, Option.getD_none, Option.getD_none, h0, if_pos rfl, if_neg (by decide)]
    rfl
  | some v => rw [Option.map_some, Option.getD_some, Option.getD_some]

theorem amounts_split (m : Emitted) :
    m.split.flatMap (fun m => m.message.payload.amounts) = m.message.payload.amounts := by
  unfold Emitted.split Emitted.text?
  split
  · rename_i s hs
    split at hs
    · rename_i hp
      simp [hp, VtPayload.amounts, Emitted.withText]
    · simp at hs
  · simp

namespace VtParser

/-- After any output that leaves the parser between two sequences, a CSI
sequence of at most `MAX_PARAMS` parameters delivers the limited values as its
counts and positions exactly when each value that it takes is below 32768 or is
32767 modulo 65536. -/
theorem csi_amounts_saturate_iff (chunks : List (List Char32)) (hg : (feedChunks {} chunks).2.mode = .ground)
    {body : List Char32} (hb : ∀ ch ∈ body, isCsiBody ch = true) {final : Char32} (hf : classifyCsiChar final = .final)
    (hn : (paramValues 0 body).length ≤ MAX_PARAMS) :
    let delivered := (feed (feedChunks {} chunks).2 (0x1B :: 0x5B :: (body ++ [final]))).1.flatMap
      fun m => m.message.payload.amounts
    let taken := amountParams (decide (0x3F ∈ body)) final
    delivered = (List.range taken).map (fun i => saturate ((paramValues 0 body).getD i 0)) ↔
      ∀ i < taken, (paramValues 0 body).getD i 0 ≤ 32767 ∨ (paramValues 0 body).getD i 0 % 0x10000 = 32767 := by
  intro delivered taken
  have hs := steady_feedChunks chunks
  have hout := feed_agrees.output _ (0x1B :: 0x5B :: (body ++ [final])) hs
  rw [run_csi hs hg hb hf] at hout
  have hpriv : (body.foldl CsiParams.read {}).addParam.privateMarker = decide (0x3F ∈ body) := by
    rw [CsiParams.foldl_read_privateMarker, Bool.false_or]
  have hsplit : delivered = ((feed (feedChunks {} chunks).2 (0x1B :: 0x5B :: (body ++ [final]))).1.flatMap
      Emitted.split).flatMap fun m => m.message.payload.amounts := by
    rw [List.flatMap_assoc]
    exact List.flatMap_congr fun m _ => (amounts_split m).symm
  rw [hsplit, hout, List.flatMap_singleton, amounts_dispatchCsi (CsiParams.overflow_of_body hn) _ hf, hpriv, List.map_inj_left]
  exact forall_congr' fun i => by rw [List.mem_range, amount_of_body hn]

/-- `CSI 12;7 H`. -/
theorem csi_amounts_saturate_iff_position :
    (feed {} [0x1B, 0x5B, 0x31, 0x32, 0x3B, 0x37, 0x48]).1.flatMap (fun m => m.message.payload.amounts) =
      [saturate 12, saturate 7] :=
  (@csi_amounts_saturate_iff [] rfl [0x31, 0x32, 0x3B, 0x37] (by decide) 0x48 rfl (by decide)).mpr
    (by decide)

/-- `CSI 65541 A` moves up by 5, and `CSI 40000 B` has a negative count. -/
theorem csi_count_wraps :
    ((feed {} [0x1B, 0x5B, 0x36, 0x35, 0x35, 0x34, 0x31, 0x41]).1.flatMap (fun m => m.message.payload.amounts) = [5] ∧
      paramValues 0 [0x36, 0x35, 0x35, 0x34, 0x31] = [65541] ∧ saturate 65541 = 32767) ∧
    (feed {} [0x1B, 0x5B, 0x34, 0x30, 0x30, 0x30, 0x30, 0x42]).1.flatMap (fun m => m.message.payload.amounts) = [-25536] ∧
      paramValues 0 [0x34, 0x30, 0x30, 0x30, 0x30] = [40000] ∧ saturate 40000 = 32767 := by
  decide

end VtParser

end Corehost
