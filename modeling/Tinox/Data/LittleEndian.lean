import Mathlib.Data.Nat.Bitwise

/-!
# Little-endian numbers

Numbers as a fixed number of bytes, the least one first.
-/

namespace LittleEndian

/-- The first `width` bytes of a number. -/
def bytes : Nat → Nat → List UInt8
  | 0, _ => []
  | width + 1, n => UInt8.ofNat n :: bytes width (n / 256)

/-- The number that bytes stand for. -/
def value : List UInt8 → Nat
  | [] => 0
  | b :: rest => b.toNat + 256 * value rest

/-- A number that fits is read back. -/
theorem value_bytes {width n : Nat} (fits : n < 256 ^ width) : value (bytes width n) = n := by
  induction width generalizing n with
  | zero =>
      rw [Nat.pow_zero] at fits
      exact (Nat.lt_one_iff.mp fits).symm
  | succ width ih =>
      have fewer : n / 256 < 256 ^ width := by
        rw [Nat.pow_succ] at fits
        exact Nat.div_lt_of_lt_mul (Nat.mul_comm _ _ ▸ fits)
      rw [bytes, value, ih fewer, UInt8.toNat_ofNat']
      exact Nat.mod_add_div n 256

/-- Bytes put together with shifts, two of them. -/
theorem value_two (a b : UInt8) : value [a, b] = a.toNat ||| b.toNat <<< 8 := by
  have isSmall : a.toNat < 2 ^ 8 := a.toNat_lt
  rw [Nat.lor_comm, ← Nat.shiftLeft_add_eq_or_of_lt isSmall, Nat.shiftLeft_eq]
  simp only [value]
  omega

/-- Bytes put together with shifts, four of them. -/
theorem value_four (a b c d : UInt8) :
    value [a, b, c, d] = a.toNat ||| b.toNat <<< 8 ||| c.toNat <<< 16 ||| d.toNat <<< 24 := by
  have isSmall : a.toNat ||| b.toNat <<< 8 < 2 ^ 16 := by
    rw [← value_two]
    have smallA := a.toNat_lt
    have smallB := b.toNat_lt
    simp only [value]
    omega
  have isSmall' : a.toNat ||| b.toNat <<< 8 ||| c.toNat <<< 16 < 2 ^ 24 := by
    rw [Nat.lor_comm, ← Nat.shiftLeft_add_eq_or_of_lt isSmall, Nat.shiftLeft_eq]
    have smallC := c.toNat_lt
    omega
  rw [Nat.lor_comm, ← Nat.shiftLeft_add_eq_or_of_lt isSmall', Nat.lor_comm,
    ← Nat.shiftLeft_add_eq_or_of_lt isSmall, ← value_two, Nat.shiftLeft_eq, Nat.shiftLeft_eq]
  simp only [value]
  omega

end LittleEndian
