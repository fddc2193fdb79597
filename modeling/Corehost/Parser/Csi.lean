import Corehost.Parser.Feed
import Mathlib.Tactic.IntervalCases

/-!
# Reading a CSI sequence

What a parser in ground makes of `ESC [`, a body and a final character:

* `CsiParams.read`: one character of the body;
* `run_csi`: the sequence is one message, that of `dispatchCsi`;
* `CsiParams.read_params`: a body of decimal parameters collects their values,
  at most `MAX_PARAMS` of them.
-/

namespace Corehost

open Lib Lib.Transducer

/-- A character that continues a CSI sequence. -/
def isCsiBody (ch : Char32) : Bool :=
  match classifyCsiChar ch with
  | .digit | .semicolon | .privateMarker | .intermediate => true
  | _ => false

namespace CsiParams

def read (c : CsiParams) (ch : Char32) : CsiParams :=
  match classifyCsiChar ch with
  | .digit => { c with currentParam := i16 (c.currentParam * 10 + Int.ofNat (ch - 0x30)), hasParam := true }
  | .semicolon => c.addParam
  | .privateMarker => { c with privateMarker := true }
  | .intermediate => { c with intermediate := ch }
  | _ => c

end CsiParams

namespace VtParser

variable {p : VtParser} {ch : Char32} {body : List Char32}

/-! ## The whole sequence -/

/-- The parser after `raw`, inside a CSI sequence. -/
def inCsi (p : VtParser) (raw : List Char32) (c : CsiParams) : VtParser := { p with raw := raw, mode := .csi, csi := c }

theorem charStep_escape (h : Steady p) (hm : p.mode = .ground) :
    charStep p 0x1B = ([], { p with raw := [0x1B], mode := .esc }) := by
  have hr := h.ground hm
  have h0 := h.seqStart
  obtain ⟨gcc, msg, raw, seqStart, mode, csi, osc⟩ := p
  subst hr h0 hm
  rfl

/-- `ESC [` in ground. -/
theorem run_introducer (h : Steady p) (hm : p.mode = .ground) :
    run charStep p [0x1B, 0x5B] = ([], p.inCsi [0x1B, 0x5B] {}) := by
  rw [run_cons, charStep_escape h hm]
  simp [run_cons, charStep, advance, parseSequenceChar, parseEsc, isC0OrDel, inCsi]

theorem parseCsi_body (p : VtParser) (hb : isCsiBody ch = true) :
    p.parseCsi ch = (.continue_, { p with csi := p.csi.read ch }) := by
  unfold isCsiBody at hb
  unfold parseCsi CsiParams.read
  cases hc : classifyCsiChar ch <;> simp_all

theorem charStep_body (p : VtParser) {raw : List Char32} {c : CsiParams} (hb : isCsiBody ch = true) :
    charStep (p.inCsi raw c) ch = ([], p.inCsi (raw ++ [ch]) (c.read ch)) := by
  simp [charStep, advance, parseSequenceChar, inCsi, parseCsi_body _ hb]

theorem run_body (p : VtParser) : ∀ {body raw : List Char32} {c : CsiParams}, (∀ ch ∈ body, isCsiBody ch = true) →
    run charStep (p.inCsi raw c) body = ([], p.inCsi (raw ++ body) (body.foldl CsiParams.read c))
  | [], raw, c, _ => by simp
  | ch :: body, raw, c, hb => by
    rw [run_cons, charStep_body p (hb ch List.mem_cons_self), run_body p fun x hx => hb x (List.mem_cons_of_mem _ hx)]
    simp

/-- The message of a completed CSI sequence: an unknown one is passed on as text. -/
def csiMessage (raw : List Char32) (r : VtMessageId × VtMessage) : Emitted :=
  if r.1 = .continue_ then ⟨.unknownSequence, { r.2 with payload := .text raw }, raw⟩ else ⟨r.1, r.2, raw⟩

/-- A CSI sequence is one message, and leaves the parser in ground. -/
theorem run_csi (h : Steady p) (hm : p.mode = .ground) (hb : ∀ ch ∈ body, isCsiBody ch = true) {final : Char32}
    (hf : classifyCsiChar final = .final) :
    run charStep p (0x1B :: 0x5B :: (body ++ [final])) =
      ([csiMessage (0x1B :: 0x5B :: (body ++ [final])) (dispatchCsi (body.foldl CsiParams.read {}).addParam final {})],
        { p with csi := {} }) := by
  have hsplit : 0x1B :: 0x5B :: (body ++ [final]) = [0x1B, 0x5B] ++ (body ++ [final]) := rfl
  have hmsg := h.msg
  have h0 := h.seqStart
  have hr := h.ground hm
  rw [hsplit, run_append, run_introducer h hm, List.nil_append, run_append, run_body p hb, List.nil_append]
  obtain ⟨gcc, msg, raw, seqStart, mode, csi, osc⟩ := p
  subst hmsg h0 hr hm
  rw [run_cons, run_nil, List.append_nil]
  generalize hd : dispatchCsi (body.foldl CsiParams.read {}).addParam final {} = r
  obtain ⟨id, msg⟩ := r
  have hstep : parseSequenceChar (inCsi ⟨gcc, {}, [], 0, .ground, csi, osc⟩ ([0x1B, 0x5B] ++ body)
      (body.foldl CsiParams.read {})) final =
      finishSeq ⟨gcc, msg, [0x1B, 0x5B] ++ body ++ [final], 0, .ground, {}, osc⟩ id := by
    simp only [parseSequenceChar, inCsi, parseCsi, hf, hd]
  have hadv : advance (inCsi ⟨gcc, {}, [], 0, .ground, csi, osc⟩ ([0x1B, 0x5B] ++ body)
      (body.foldl CsiParams.read {})) final =
      finishSeq ⟨gcc, msg, [0x1B, 0x5B] ++ body ++ [final], 0, .ground, {}, osc⟩ id := by
    rw [advance, if_neg (by simp [inCsi]), hstep]
  rw [charStep, hadv]
  by_cases hid : id = .continue_
  · simp [finishSeq, hid, csiMessage, setUnknownSequence, rawSequence, reset]
  · simp [finishSeq, hid, csiMessage, rawSequence, reset]

end VtParser

/-! ## Decimal parameters -/

/-- The value of a parameter: its digits are accumulated in a `short`. -/
def shortOf (digits : List Char32) : Int := digits.foldl (fun v ch => i16 (v * 10 + Int.ofNat (ch - 0x30))) 0

/-- Parameters with semicolons between them. -/
def joinParams : List (List Char32) → List Char32
  | [] => []
  | [d] => d
  | d :: d' :: ds => d ++ 0x3B :: joinParams (d' :: ds)

namespace CsiParams

def push (c : CsiParams) (v : Int) : CsiParams := { c with currentParam := v }.addParam

theorem classifyCsiChar_digit {ch : Char32} (h : isDigit ch = true) : classifyCsiChar ch = .digit := by
  simp only [isDigit, Bool.and_eq_true, decide_eq_true_eq] at h
  obtain ⟨h1, h2⟩ : (0x30 : Nat) ≤ ch ∧ ch ≤ (0x39 : Nat) := h
  interval_cases ch <;> rfl

/-- A parameter takes the place of the digits read before it. -/
theorem push_pending (c : CsiParams) (v w : Int) (b : Bool) : { c with currentParam := w, hasParam := b }.push v = c.push v := by
  unfold push addParam
  dsimp only
  split <;> rfl

theorem read_digits : ∀ {ds : List Char32} {c : CsiParams}, (∀ ch ∈ ds, isDigit ch = true) →
    (ds.foldl read c).addParam =
      c.push (ds.foldl (fun v ch => i16 (v * 10 + Int.ofNat (ch - 0x30))) c.currentParam)
  | [], _, _ => rfl
  | ch :: ds, c, h => by
    have hread : c.read ch = { c with currentParam := i16 (c.currentParam * 10 + Int.ofNat (ch - 0x30)), hasParam := true } := by
      rw [read, classifyCsiChar_digit (h ch List.mem_cons_self)]
    rw [List.foldl_cons, List.foldl_cons, read_digits fun x hx => h x (List.mem_cons_of_mem _ hx), hread]
    exact push_pending c _ _ true

theorem push_currentParam (c : CsiParams) (v : Int) : (c.push v).currentParam = 0 := by
  simp only [push, addParam]

/-- A body of parameters pushes their values, one after the other. -/
theorem read_params : ∀ {ds : List (List Char32)} {c : CsiParams}, ds ≠ [] → c.currentParam = 0 →
    (∀ d ∈ ds, ∀ ch ∈ d, isDigit ch = true) → ((joinParams ds).foldl read c).addParam = (ds.map shortOf).foldl push c
  | [d], c, _, h0, h => by
    rw [joinParams, read_digits (h d List.mem_cons_self), h0]
    rfl
  | d :: d' :: ds, c, _, h0, h => by
    have hd := read_digits (c := c) (h d List.mem_cons_self)
    rw [joinParams, List.foldl_append, List.foldl_cons]
    have hsemi : (d.foldl read c).read 0x3B = (d.foldl read c).addParam := by
      simp [read, classifyCsiChar, isC0OrDel]
    rw [hsemi, hd, h0, read_params (List.cons_ne_nil _ _) (push_currentParam _ _) fun x hx => h x (List.mem_cons_of_mem _ hx)]
    rfl

/-- The collected values, while there is room for them. -/
theorem foldl_push : ∀ {vs : List Int} {c : CsiParams}, c.paramIndex ≤ MAX_PARAMS → c.params.length = MAX_PARAMS →
    (vs.foldl push c).params.take (vs.foldl push c).paramIndex =
        (c.params.take c.paramIndex ++ vs).take MAX_PARAMS ∧
      (vs.foldl push c).paramIndex = min (c.paramIndex + vs.length) MAX_PARAMS ∧
      (vs.foldl push c).csiOverflow = (c.csiOverflow || decide (MAX_PARAMS < c.paramIndex + vs.length)) ∧
      (vs.foldl push c).privateMarker = c.privateMarker ∧ (vs.foldl push c).intermediate = c.intermediate
  | [], c, hi, hl => by
    have hn : ¬ MAX_PARAMS < c.paramIndex := by omega
    refine ⟨?_, by simp; omega, by simp [hn], rfl, rfl⟩
    rw [List.foldl_nil, List.append_nil, List.take_take, Nat.min_eq_right hi]
  | v :: vs, c, hi, hl => by
    rw [List.foldl_cons]
    by_cases hlt : c.paramIndex < MAX_PARAMS
    · have hpush : c.push v = { c with
          params := c.params.set c.paramIndex v
          paramIndex := c.paramIndex + 1
          currentParam := 0
          hasParam := false } := by
        simp [push, addParam, hlt]
      obtain ⟨h1, h2, h3, h4, h5⟩ := @foldl_push vs (c.push v) (by rw [hpush]; exact hlt)
        (by rw [hpush]; simpa using hl)
      have htake : (c.params.set c.paramIndex v).take (c.paramIndex + 1) = c.params.take c.paramIndex ++ [v] := by
        rw [List.take_set, List.take_add_one, List.getElem?_eq_getElem (by omega), Option.toList_some,
          List.set_append_right _ _ (by rw [List.length_take]; omega)]
        simp [Nat.min_eq_left (show c.paramIndex ≤ c.params.length by omega)]
      rw [h1, h2, h3, h4, h5, hpush]
      refine ⟨by simp [htake], by simp only [List.length_cons]; congr 1; omega, ?_, rfl, rfl⟩
      simp only [List.length_cons]
      congr 2
      rw [Nat.add_assoc, Nat.add_comm 1]
    · have hpush : c.push v = { c with csiOverflow := true, currentParam := 0, hasParam := false } := by
        simp [push, addParam, hlt]
      obtain ⟨h1, h2, h3, h4, h5⟩ := foldl_push (c := c.push v) (by rw [hpush]; exact hi)
        (by rw [hpush]; exact hl)
      have hidx : c.paramIndex = MAX_PARAMS := by omega
      have hfull : (c.params.take c.paramIndex).length = MAX_PARAMS := by rw [List.length_take]; omega
      rw [h1, h2, h3, h4, h5, hpush]
      refine ⟨?_, by simp only [List.length_cons]; omega, by simp [hidx], rfl, rfl⟩
      dsimp only
      rw [List.take_append_of_le_length (by omega), List.take_append_of_le_length (by omega)]

/-- The parameters of a sequence that has nothing but parameters. -/
def ofValues (vs : List Int) : CsiParams := vs.foldl push {}

theorem ofValues_take (vs : List Int) : (ofValues vs).params.take (ofValues vs).paramIndex = vs.take MAX_PARAMS :=
  (foldl_push (c := {}) (Nat.zero_le _) rfl).1

theorem ofValues_paramIndex (vs : List Int) : (ofValues vs).paramIndex = min vs.length MAX_PARAMS := by
  simpa [ofValues] using (foldl_push (c := {}) (Nat.zero_le _) rfl).2.1

theorem ofValues_overflow (vs : List Int) : (ofValues vs).csiOverflow = decide (MAX_PARAMS < vs.length) := by
  simpa [ofValues] using (foldl_push (c := {}) (Nat.zero_le _) rfl).2.2.1

theorem isCsiBody_joinParams : ∀ {ds : List (List Char32)}, (∀ d ∈ ds, ∀ ch ∈ d, isDigit ch = true) →
    ∀ ch ∈ joinParams ds, isCsiBody ch = true
  | [], _, ch, hc => by simp [joinParams] at hc
  | [d], h, ch, hc => by
    rw [isCsiBody, classifyCsiChar_digit (h d List.mem_cons_self ch hc)]
  | d :: d' :: ds, h, ch, hc => by
    rw [joinParams, List.mem_append, List.mem_cons] at hc
    rcases hc with hc | rfl | hc
    · rw [isCsiBody, classifyCsiChar_digit (h d List.mem_cons_self ch hc)]
    · rfl
    · exact isCsiBody_joinParams (fun x hx => h x (List.mem_cons_of_mem _ hx)) ch hc

end CsiParams

end Corehost
