import Mathlib.Algebra.Group.Nat.Defs
import Mathlib.Data.Nat.Basic
import Mathlib.Tactic.Common

/-!
# Numbers as bytes

The `n` low bytes of a number, the lowest one first, and the number of a list
of bytes:

* `leNat_leBytes`: the number is read back, up to what `n` bytes hold;
* `leBytes_leNat`: the bytes are written back.
-/

namespace Corehost.Lib

/-- The `n` low bytes of `v`, the lowest one first. -/
def leBytes : Nat → Nat → List UInt8
  | 0, _ => []
  | n + 1, v => UInt8.ofNat v :: leBytes n (v / 256)

/-- The number whose bytes these are, the lowest one first. -/
def leNat : List UInt8 → Nat
  | [] => 0
  | b :: bytes => b.toNat + 256 * leNat bytes

@[simp] theorem length_leBytes : ∀ n v : Nat, (leBytes n v).length = n
  | 0, _ => rfl
  | n + 1, v => congrArg (· + 1) (length_leBytes n (v / 256))

theorem leNat_leBytes : ∀ n v : Nat, leNat (leBytes n v) = v % 256 ^ n
  | 0, v => (Nat.mod_one v).symm
  | n + 1, v => by
    have hbyte : (UInt8.ofNat v).toNat = v % 256 := by simp
    rw [leBytes, leNat, leNat_leBytes n, hbyte, Nat.pow_succ, Nat.mul_comm (256 ^ n), Nat.mod_mul]

theorem leNat_leBytes_of_lt {n v : Nat} (h : v < 256 ^ n) : leNat (leBytes n v) = v := by
  rw [leNat_leBytes, Nat.mod_eq_of_lt h]

theorem leBytes_leNat : ∀ bytes : List UInt8, leBytes bytes.length (leNat bytes) = bytes
  | [] => rfl
  | b :: bytes => by
    have hb : b.toNat < 256 := b.toNat_lt
    have hdiv : (b.toNat + 256 * leNat bytes) / 256 = leNat bytes := by omega
    have hmod : UInt8.ofNat (b.toNat + 256 * leNat bytes) = b := by
      apply UInt8.toNat_inj.mp
      rw [UInt8.toNat_ofNat']
      omega
    rw [List.length_cons, leBytes, leNat, hdiv, hmod, leBytes_leNat bytes]

theorem leNat_lt : ∀ bytes : List UInt8, leNat bytes < 256 ^ bytes.length
  | [] => Nat.one_pos
  | b :: bytes => by
    have hb : b.toNat < 256 := b.toNat_lt
    have := leNat_lt bytes
    rw [leNat, List.length_cons, Nat.pow_succ]
    omega

/-- A number in two parts. -/
theorem leBytes_append : ∀ m n v : Nat, leBytes (m + n) v = leBytes m v ++ leBytes n (v / 256 ^ m)
  | 0, n, v => by rw [Nat.zero_add, Nat.pow_zero, Nat.div_one, leBytes, List.nil_append]
  | m + 1, n, v => by
    rw [show m + 1 + n = (m + n) + 1 by omega, leBytes, leBytes, leBytes_append m n, List.cons_append, Nat.div_div_eq_div_mul,
      Nat.pow_succ, Nat.mul_comm (256 ^ m)]

end Corehost.Lib
