import Corehost.Parser.Counts
import Corehost.Vt.RoundTrip

/-!
# Keys in win32-input-mode

What the parser makes of `ESC [ vk ; sc ; uc ; kd ; cs ; rc _`, the form in
which a terminal passes on a key event. The parser accumulates each parameter
in a `short`, and `_dispatch_csi` casts it back.

* `shortOf_decimal_eq`: a number of any length is accumulated modulo 2^16;
* `win32_key_decoded`: the key event comes back, however its characters are cut.
-/

namespace Corehost

open Lib Lib.Transducer

/-- The parameters of a key event, in the order of the sequence. -/
def VtWin32KeyPayload.params (key : VtWin32KeyPayload) : List Nat :=
  [key.vk, key.sc, key.uc, if key.keyDown then 1 else 0, key.controlState, key.repeatCount]

/-- The sequence of a key event. -/
def VtWin32KeyPayload.sequence (key : VtWin32KeyPayload) : List Char32 :=
  0x1B :: 0x5B :: (joinParams (key.params.map decimal) ++ ['_'.toNat])

/-- The ranges of the fields that a sequence can carry. -/
structure VtWin32KeyPayload.InRange (key : VtWin32KeyPayload) : Prop where
  vk : key.vk ≤ 65535
  sc : key.sc ≤ 65535
  uc : key.uc ≤ 65535
  controlState : key.controlState ≤ 32767
  repeatCount : 1 ≤ key.repeatCount ∧ key.repeatCount ≤ 65535

/-! ## Parameters in a `short` -/

theorem foldl_shortOf (ds : List Char32) : ∀ acc : Nat,
    ds.foldl (fun v ch => i16 (v * 10 + Int.ofNat (ch - 0x30))) (i16 acc) =
      i16 (ds.foldl (fun (v : Nat) ch => v * 10 + (ch - 0x30)) acc : Nat) := by
  induction ds with
  | nil => exact fun acc => by rw [List.foldl_nil, List.foldl_nil]
  | cons ch ds ih =>
    intro acc
    have hdigit : i16 (i16 acc * 10 + Int.ofNat (ch - 0x30)) = i16 ((acc * 10 + (ch - 0x30) : Nat) : Int) :=
      CsiParams.i16_digit acc (ch - 0x30)
    rw [List.foldl_cons, List.foldl_cons, hdigit, ih]

/-- A number is accumulated modulo 2^16. -/
theorem shortOf_decimal_eq (n : Nat) : shortOf (decimal n) = i16 n := by
  have h := foldl_shortOf (decimal n) 0
  rwa [RoundTrip.decimal_value, show i16 ((0 : Nat) : Int) = 0 from rfl] at h

/-- `_clamp` leaves a `short` as it is. -/
theorem clamp_i16 (v : Int) : CsiParams.clamp (i16 v) = i16 v := by
  have h := (isShort_i16 v).2
  rw [CsiParams.clamp, if_neg (by omega)]

/-- The cast to an unsigned `short` undoes the wrap. -/
theorem u16OfShort_i16 {n : Nat} (h : n ≤ 65535) : u16OfShort (i16 n) = n := by
  unfold u16OfShort i16
  rw [Int.bmod_def]
  omega

theorem u32OfShort_i16 {n : Nat} (h : n ≤ 32767) : u32OfShort (i16 n) = n := by
  unfold u32OfShort
  rw [i16_of_range (by omega) (by omega)]
  omega

/-! ## The message -/

theorem getParam_ofValues (vs : List Int) (h : vs.length ≤ MAX_PARAMS) (i : Nat) (d : Int) :
    (CsiParams.ofValues vs).getParam i d = vs.getD i d := by
  have hidx : (CsiParams.ofValues vs).paramIndex = vs.length := by
    rw [CsiParams.ofValues_paramIndex, Nat.min_eq_left h]
  have htake : (CsiParams.ofValues vs).params.take vs.length = vs := by
    have := CsiParams.ofValues_take vs
    rwa [hidx, List.take_of_length_le h] at this
  rw [CsiParams.getParam, hidx]
  split_ifs with hi
  · rw [List.getD_eq_getElem?_getD, List.getD_eq_getElem?_getD, ← List.getElem?_take_of_lt hi, htake,
      List.getElem?_eq_getElem hi]
    rfl
  · rw [List.getD_eq_default _ _ (by omega)]

/-- The key event that `_dispatch_csi` makes of the accumulated parameters. -/
theorem win32Key_ofValues {key : VtWin32KeyPayload} (h : key.InRange) :
    win32Key (CsiParams.ofValues (key.params.map fun n : Nat => i16 n)) = key := by
  have hget := getParam_ofValues (key.params.map fun n : Nat => i16 n) (Nat.le_of_ble_eq_true rfl)
  have hkd : (i16 ((if key.keyDown then 1 else 0 : Nat) : Int) != 0) = key.keyDown := by
    cases key.keyDown <;> rfl
  have hrc := h.repeatCount
  unfold win32Key
  simp only [hget]
  simp only [VtWin32KeyPayload.params, List.map_cons, List.getD_cons_zero, List.getD_cons_succ, clamp_i16, hkd,
    u16OfShort_i16 h.vk, u16OfShort_i16 h.sc, u16OfShort_i16 h.uc, u32OfShort_i16 h.controlState, u16OfShort_i16 hrc.2]
  rw [if_neg (by omega)]

theorem dispatchCsi_key {c : CsiParams} (ho : c.csiOverflow = false) (hn : c.paramIndex > 1) :
    dispatchCsi c '_'.toNat {} = (.win32InputKey, { payload := .win32Key (win32Key c), keyModifier := c.getParam 1 1 }) := by
  simp [dispatchCsi, ho, hn]

theorem dispatchCsi_win32Key {key : VtWin32KeyPayload} (h : key.InRange) :
    dispatchCsi (CsiParams.ofValues (key.params.map fun n : Nat => i16 n)) '_'.toNat {} =
      (.win32InputKey, { payload := .win32Key key, keyModifier := i16 key.sc }) := by
  have hlen : (key.params.map fun n : Nat => i16 n).length = 6 := rfl
  have hoverflow := CsiParams.ofValues_overflow (key.params.map fun n : Nat => i16 n)
  have hindex := CsiParams.ofValues_paramIndex (key.params.map fun n : Nat => i16 n)
  have hmodifier := getParam_ofValues (key.params.map fun n : Nat => i16 n) (by rw [hlen]; decide) 1 1
  rw [hlen] at hoverflow hindex
  rw [dispatchCsi_key hoverflow (by rw [hindex]; decide), win32Key_ofValues h, hmodifier]
  unfold VtWin32KeyPayload.params
  rw [List.map_cons, List.map_cons, List.getD_cons_succ, List.getD_cons_zero]

/-! ## The characters, in any number of chunks -/

/-- One message that is not text is one message of the chunks. -/
theorem eq_of_split_singleton {m : Emitted} (hm : m.id ≠ .continueText) : ∀ {ms : List Emitted},
    (∀ x ∈ ms, x.text? ≠ some []) → ms.flatMap Emitted.split = [m] → ms = [m]
  | [], _, h => by simp at h
  | x :: ms, hne, h => by
    obtain ⟨hx, hms⟩ := List.forall_mem_cons.mp hne
    rw [List.flatMap_cons] at h
    have hid : x.id ≠ .continueText := by
      intro hid
      unfold Emitted.split at h
      split at h
      · rename_i s hs
        cases s with
        | nil => exact hx hs
        | cons ch s =>
          rw [List.map_cons, List.cons_append, List.cons.injEq] at h
          exact hm (h.1 ▸ hid)
      · rw [List.singleton_append, List.cons.injEq] at h
        exact hm (h.1 ▸ hid)
    rw [Emitted.split_of_ne hid, List.singleton_append, List.cons.injEq] at h
    have hrest : ms = [] := by
      cases ms with
      | nil => rfl
      | cons y ms =>
        have hy := hms y List.mem_cons_self
        have hempty := (List.append_eq_nil_iff.mp (by rw [← List.flatMap_cons]; exact h.2)).1
        unfold Emitted.split at hempty
        split at hempty
        · rename_i s hs
          exact absurd (by rw [hs, List.map_eq_nil_iff.mp hempty]) hy
        · exact absurd hempty (List.cons_ne_nil _ _)
    rw [h.1, hrest]

theorem run_win32Key {p : VtParser} (h : p.Steady) (hm : p.mode = .ground) {key : VtWin32KeyPayload} (hk : key.InRange) :
    (run VtParser.charStep p key.sequence).1 =
      [⟨.win32InputKey, { payload := .win32Key key, keyModifier := i16 key.sc }, key.sequence⟩] := by
  have hdigit : ∀ d ∈ key.params.map decimal, ∀ ch ∈ d, isDigit ch = true := fun d hd ch hc => by
    obtain ⟨n, -, rfl⟩ := List.mem_map.mp hd
    exact decimal_isDigit n ch hc
  have hvalues : (key.params.map decimal).map shortOf = key.params.map fun n : Nat => i16 n := by
    rw [List.map_map]
    exact List.map_congr_left fun n _ => shortOf_decimal_eq n
  have hread : ((joinParams (key.params.map decimal)).foldl CsiParams.read {}).addParam =
      CsiParams.ofValues (key.params.map fun n : Nat => i16 n) := by
    have hne : key.params.map decimal ≠ [] := List.cons_ne_nil _ _
    rw [CsiParams.read_params hne rfl hdigit, hvalues]
    rfl
  rw [VtWin32KeyPayload.sequence, VtParser.run_csi h hm (CsiParams.isCsiBody_joinParams hdigit) (by decide), hread,
    dispatchCsi_win32Key hk]
  rfl

/-- A key event comes back as one message with its own fields, after any output
that leaves the parser in ground, and however its characters are cut into chunks. -/
theorem win32_key_decoded (before chunks : List (List Char32)) (hg : (VtParser.feedChunks {} before).2.mode = .ground)
    {key : VtWin32KeyPayload} (hk : key.InRange) (hc : chunks.flatten = key.sequence) :
    (VtParser.feedChunks (VtParser.feedChunks {} before).2 chunks).1 =
      [⟨.win32InputKey, { payload := .win32Key key, keyModifier := i16 key.sc }, key.sequence⟩] := by
  have hs := VtParser.steady_feedChunks before
  have hout := (runChunks_of_agrees VtParser.feed_agrees chunks hs).1
  rw [hc, run_win32Key hs hg hk] at hout
  exact eq_of_split_singleton (fun h => by cases h) (VtParser.feedChunks_text_ne chunks hs) hout

/-- A key event with a character above 32767, after some text, in two chunks. -/
theorem win32_key_decoded_char :
    (VtParser.feedChunks (VtParser.feedChunks {} [[0x61]]).2
      [(⟨65, 30, 40000, true, 0, 1⟩ : VtWin32KeyPayload).sequence.take 4,
       (⟨65, 30, 40000, true, 0, 1⟩ : VtWin32KeyPayload).sequence.drop 4]).1 =
      [⟨.win32InputKey, { payload := .win32Key ⟨65, 30, 40000, true, 0, 1⟩, keyModifier := 30 },
        (⟨65, 30, 40000, true, 0, 1⟩ : VtWin32KeyPayload).sequence⟩] :=
  win32_key_decoded [[0x61]] _ (by decide) ⟨by decide, by decide, by decide, by decide, by decide⟩ (by simp)

end Corehost
