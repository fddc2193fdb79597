import Mathlib.Data.UInt

/-!
# Base64

The bytes that a row of base64 digits stands for, four digits for three bytes.

* `digits`: the digits in front of the first character that is none;
* `bytes`: by groups of four digits; digits at the end that make up no whole
  byte are left out;
* `pull`: one digit after the other, with the bits that are left of the ones
  before;
* `pull_eq_bytes`: both are the same.
-/

namespace Corehost.Lib.Base64

/-- The digits in front of the first character that is none. -/
def digits {α : Type*} (value : α → Option Nat) : List α → List Nat
  | [] => []
  | c :: cs =>
    match value c with
    | some v => v :: digits value cs
    | none => []

/-- The bytes of a row of digits. -/
def bytes : List Nat → List UInt8
  | a :: b :: c :: d :: ds =>
    .ofNat (a * 4 + b / 16) :: .ofNat (b % 16 * 16 + c / 4) :: .ofNat (c % 4 * 64 + d) :: bytes ds
  | [a, b, c] => [.ofNat (a * 4 + b / 16), .ofNat (b % 16 * 16 + c / 4)]
  | [a, b] => [.ofNat (a * 4 + b / 16)]
  | _ => []

/-- The bytes of a row of digits behind `bits` bits that are left, with the value `rest`. -/
def pull (rest bits : Nat) : List Nat → List UInt8
  | [] => []
  | d :: ds =>
    if bits + 6 ≥ 8 then .ofNat ((rest * 64 + d) / 2 ^ (bits - 2)) :: pull ((rest * 64 + d) % 2 ^ (bits - 2)) (bits - 2) ds
    else pull (rest * 64 + d) (bits + 6) ds

theorem pull_first (d : Nat) (ds : List Nat) : pull 0 0 (d :: ds) = pull d 6 ds := by
  rw [pull, if_neg (by omega), Nat.zero_mul, Nat.zero_add]

theorem pull_second (a d : Nat) (ds : List Nat) :
    pull a 6 (d :: ds) = .ofNat ((a * 64 + d) / 16) :: pull ((a * 64 + d) % 16) 4 ds := if_pos (by omega)

theorem pull_third (rest d : Nat) (ds : List Nat) :
    pull rest 4 (d :: ds) = .ofNat ((rest * 64 + d) / 4) :: pull ((rest * 64 + d) % 4) 2 ds := if_pos (by omega)

theorem pull_fourth (rest d : Nat) (ds : List Nat) : pull rest 2 (d :: ds) = .ofNat (rest * 64 + d) :: pull 0 0 ds := by
  rw [pull, if_pos (by omega), Nat.sub_self, Nat.pow_zero, Nat.div_one, Nat.mod_one]

theorem pull_two (a b : Nat) (ds : List Nat) :
    pull 0 0 (a :: b :: ds) = .ofNat (a * 4 + b / 16) :: pull (b % 16) 4 ds := by
  rw [pull_first, pull_second, show (a * 64 + b) / 16 = a * 4 + b / 16 by omega, show (a * 64 + b) % 16 = b % 16 by omega]

theorem pull_three (a b c : Nat) (ds : List Nat) : pull 0 0 (a :: b :: c :: ds) =
    .ofNat (a * 4 + b / 16) :: .ofNat (b % 16 * 16 + c / 4) :: pull (c % 4) 2 ds := by
  rw [pull_two, pull_third, show (b % 16 * 64 + c) / 4 = b % 16 * 16 + c / 4 by omega,
    show (b % 16 * 64 + c) % 4 = c % 4 by omega]

theorem pull_eq_bytes : ∀ ds : List Nat, pull 0 0 ds = bytes ds
  | [] => rfl
  | [_] => pull_first ..
  | [_, _] => pull_two ..
  | [_, _, _] => pull_three ..
  | a :: b :: c :: d :: ds => by rw [pull_three, pull_fourth, pull_eq_bytes ds, bytes]

end Corehost.Lib.Base64
