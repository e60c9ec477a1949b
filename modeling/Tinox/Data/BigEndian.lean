import Mathlib.Tactic.Ring

/-!
# Big-endian numbers

The digits of a number to the base 256, the highest first, and the number that digits stand for.
-/

namespace BigEndian

/-- The last `width` digits of a number. -/
def digits : Nat → Nat → List Nat
  | 0, _ => []
  | width + 1, n => n / 256 ^ width % 256 :: digits width n

/-- The number of digits behind those of another number. -/
def number (start : Nat) (digits : List Nat) : Nat :=
  digits.foldl (fun value digit => value * 256 + digit) start

theorem digits_lt {width n digit : Nat} (member : digit ∈ digits width n) : digit < 256 := by
  induction width with
  | zero => exact absurd member List.not_mem_nil
  | succ width ih =>
      rcases List.mem_cons.mp member with isFirst | later
      · rw [isFirst]
        exact Nat.mod_lt _ (by decide)
      · exact ih later

/-- Digits are those of the number that they stand for. -/
theorem number_digits (width start n : Nat) :
    number start (digits width n) = start * 256 ^ width + n % 256 ^ width := by
  induction width generalizing start with
  | zero => rw [Nat.pow_zero, Nat.mod_one, Nat.mul_one]; rfl
  | succ width ih =>
      have isStep : number start (digits (width + 1) n) =
          number (start * 256 + n / 256 ^ width % 256) (digits width n) := rfl
      have isSplit : n % 256 ^ (width + 1) = n % 256 ^ width + 256 ^ width * (n / 256 ^ width % 256) := by
        rw [Nat.pow_succ, Nat.mod_mul]
      rw [isStep, ih, isSplit]
      ring

theorem le_number (start : Nat) (digits : List Nat) : start ≤ number start digits := by
  induction digits generalizing start with
  | nil => exact Nat.le_refl start
  | cons digit digits ih =>
      have later := ih (start * 256 + digit)
      exact Nat.le_trans (by omega) later

end BigEndian
