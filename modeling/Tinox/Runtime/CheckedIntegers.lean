import Tinox.Runtime.Numerals

/-!
# Checked integers

`tinox_parse_int_checked` refuses every text that is no integer.  The accumulator has 64 bits
and nothing looks at it, so that a larger integer is stored as its remainder.
-/

namespace Tinox.Runtime

open JsonText

/-- The loop of `tinox_parse_int_checked`: every byte is a digit. -/
def checkedDigits (result : Int64) : CString → Option Int64
  | [] => some result
  | b :: p =>
      if isDigit b then checkedDigits (result * 10 + Int64.ofNat (b - '0'.toUInt8).toNat) p
      else none

/-- `tinox_parse_int_checked`: the integer stored at `out` when 1 is returned. -/
def tinoxParseIntChecked (s : CString) : Option Int64 :=
  if s = [] then none
  else
    let neg := isAt '-' s
    let p := if isAt '-' s || isAt '+' s then s.tail else s
    if p = [] then none
    else (checkedDigits 0 p).map fun result => if neg then -result else result

inductive Sign where
  | absent
  | plus
  | minus
  deriving DecidableEq, Repr

namespace Sign

def bytes : Sign → CString
  | absent => []
  | plus => ['+'.toUInt8]
  | minus => ['-'.toUInt8]

end Sign

/-- A sign that may be left out, and digits, of which there is one. -/
structure SignedDigits where
  sign : Sign
  first : Fin 10
  rest : List (Fin 10)
  deriving DecidableEq, Repr

namespace SignedDigits

def digits (number : SignedDigits) : List (Fin 10) :=
  number.first :: number.rest

def bytes (number : SignedDigits) : CString :=
  number.sign.bytes ++ digitBytes number.digits

/-- The integer that is denoted, of any size. -/
def value (number : SignedDigits) : Int :=
  if number.sign = .minus then -(decimal number.digits : Int) else decimal number.digits

/-- The integer fits in 64 bits. -/
def InRange (number : SignedDigits) : Prop :=
  -2 ^ 63 ≤ number.value ∧ number.value < 2 ^ 63

theorem inRange_iff (number : SignedDigits) :
    number.InRange ↔ (Int64.ofInt number.value).toInt = number.value := by
  constructor
  · rintro ⟨atLeast, below⟩
    exact Int64.toInt_ofInt_of_le atLeast below
  · intro same
    rw [InRange, ← same]
    exact ⟨Int64.le_toInt _, Int64.toInt_lt _⟩

end SignedDigits

theorem checkedDigits_digitBytes (digits : List (Fin 10)) (start : Nat) :
    checkedDigits (Int64.ofNat start) (digitBytes digits) =
      some (Int64.ofNat (digits.foldl (fun value (digit : Fin 10) => value * 10 + digit.val) start)) := by
  induction digits generalizing start with
  | nil => rfl
  | cons digit digits ih =>
      rw [digitBytes, List.map_cons, checkedDigits, if_pos (isDigit_byte digit), digit_value,
        List.foldl_cons, ← ih, Int64.ofNat_add, Int64.ofNat_mul]
      rfl

theorem exists_digit {b : UInt8} (isOne : isDigit b = true) :
    ∃ digit : Fin 10, '0'.toUInt8 + UInt8.ofNat digit.val = b := by
  rcases Bool.and_eq_true_iff.mp isOne with ⟨atLeast, atMost⟩
  have atLeast : 48 ≤ b.toNat := UInt8.le_iff_toNat_le.mp (of_decide_eq_true atLeast)
  have atMost : b.toNat ≤ 57 := UInt8.le_iff_toNat_le.mp (of_decide_eq_true atMost)
  have small : b.toNat - 48 < 10 := by omega
  refine ⟨⟨b.toNat - 48, small⟩, UInt8.toNat_inj.mp ?_⟩
  have isZero : '0'.toUInt8.toNat = 48 := rfl
  rw [UInt8.toNat_add, UInt8.toNat_ofNat', isZero]
  change (48 + (b.toNat - 48) % 256) % 256 = b.toNat
  omega

theorem exists_digitBytes {p : CString} {result out : Int64}
    (accepted : checkedDigits result p = some out) : ∃ digits, digitBytes digits = p := by
  induction p generalizing result with
  | nil => exact ⟨[], rfl⟩
  | cons b p ih =>
      rw [checkedDigits] at accepted
      split at accepted
      next isOne =>
        rcases exists_digit isOne with ⟨digit, rfl⟩
        rcases ih accepted with ⟨digits, rfl⟩
        exact ⟨digit :: digits, rfl⟩
      next => exact (Option.some_ne_none _ accepted.symm).elim

theorem digitBytes_injective : Function.Injective digitBytes := by
  apply List.map_injective_iff.mpr
  intro digit other same
  apply Fin.eq_of_val_eq
  have sameByte : '0'.toUInt8 + UInt8.ofNat digit.val = '0'.toUInt8 + UInt8.ofNat other.val := same
  rw [← digit_value digit, ← digit_value other, sameByte]

theorem isAt_cons_iff (c : Char) (b : UInt8) (p : CString) :
    isAt c (b :: p) = true ↔ b = c.toUInt8 := by
  rw [isAt_cons, decide_eq_true_iff]

theorem digit_ne_sign : ∀ digit : Fin 10, '0'.toUInt8 + UInt8.ofNat digit.val ≠ '-'.toUInt8 ∧
    '0'.toUInt8 + UInt8.ofNat digit.val ≠ '+'.toUInt8 := by
  decide

theorem sign_bytes (number : SignedDigits) :
    isAt '-' number.bytes = decide (number.sign = .minus) ∧
      (if isAt '-' number.bytes || isAt '+' number.bytes then number.bytes.tail
        else number.bytes) = digitBytes number.digits := by
  rcases number with ⟨sign, first, rest⟩
  cases sign with
  | absent =>
      have isText : SignedDigits.bytes ⟨.absent, first, rest⟩ = digitBytes (first :: rest) := rfl
      have noMinus : isAt '-' (digitBytes (first :: rest)) = false :=
        decide_eq_false fun isMinus => (digit_ne_sign first).1 (Option.some_inj.mp isMinus)
      have noPlus : isAt '+' (digitBytes (first :: rest)) = false :=
        decide_eq_false fun isPlus => (digit_ne_sign first).2 (Option.some_inj.mp isPlus)
      rw [isText, noMinus, noPlus]
      exact ⟨rfl, rfl⟩
  | plus | minus => exact ⟨rfl, rfl⟩

theorem tinoxParseIntChecked_bytes (number : SignedDigits) :
    tinoxParseIntChecked number.bytes = some (Int64.ofInt number.value) := by
  rcases sign_bytes number with ⟨isSign, isRest⟩
  have notEmpty : digitBytes number.digits ≠ [] := List.cons_ne_nil _ _
  have isText : number.bytes ≠ [] := List.append_ne_nil_of_right_ne_nil _ notEmpty
  have accepted : checkedDigits 0 (digitBytes number.digits) =
    some (Int64.ofNat (decimal number.digits)) := checkedDigits_digitBytes number.digits 0
  rw [tinoxParseIntChecked, if_neg isText]
  dsimp only
  rw [isRest, isSign, if_neg notEmpty, accepted, Option.map_some, SignedDigits.value]
  simp only [decide_eq_true_eq]
  split
  next =>
    rw [← Int64.neg_ofInt]
    rfl
  next => rfl

theorem exists_signedDigits {s : CString} {out : Int64}
    (parsed : tinoxParseIntChecked s = some out) : ∃ number : SignedDigits, number.bytes = s := by
  have ofDigits : ∀ {p : CString}, (if p = [] then none else (checkedDigits 0 p).map fun result =>
      if isAt '-' s then -result else result) = some out →
        ∃ first rest, digitBytes (first :: rest) = p := by
    intro p isSome
    split at isSome
    next => exact (Option.some_ne_none _ isSome.symm).elim
    next notEmpty =>
      rcases Option.map_eq_some_iff.mp isSome with ⟨result, accepted, -⟩
      rcases exists_digitBytes accepted with ⟨digits, isText⟩
      cases digits with
      | nil => exact (notEmpty isText.symm).elim
      | cons first rest => exact ⟨first, rest, isText⟩
  rw [tinoxParseIntChecked] at parsed
  cases s with
  | nil => exact (Option.some_ne_none _ parsed.symm).elim
  | cons b p =>
      rw [if_neg (List.cons_ne_nil _ _)] at parsed
      rcases ofDigits parsed with ⟨first, rest, isText⟩
      split at isText
      next isSign =>
        rcases Bool.or_eq_true_iff.mp isSign with isMinus | isPlus
        · exact ⟨⟨.minus, first, rest⟩,
            congrArg₂ List.cons ((isAt_cons_iff _ _ _).mp isMinus).symm isText⟩
        · exact ⟨⟨.plus, first, rest⟩,
            congrArg₂ List.cons ((isAt_cons_iff _ _ _).mp isPlus).symm isText⟩
      next => exact ⟨⟨.absent, first, rest⟩, isText⟩

theorem value_of_bytes {number other : SignedDigits} (same : number.bytes = other.bytes) :
    number.value = other.value := by
  rcases sign_bytes number with ⟨isSign, isRest⟩
  rcases sign_bytes other with ⟨otherSign, otherRest⟩
  have sameSign : number.sign = .minus ↔ other.sign = .minus := by
    rw [← decide_eq_decide, ← isSign, ← otherSign, same]
  have sameDigits : number.digits = other.digits := by
    apply digitBytes_injective
    rw [← isRest, ← otherRest, same]
  rw [SignedDigits.value, SignedDigits.value, sameDigits]
  simp only [sameSign]

/-- A text is parsed if and only if it is that of an integer of 64 bits, and to this integer. -/
def ParsesExactly (s : CString) : Prop :=
  ∀ out : Int64, tinoxParseIntChecked s = some out ↔
    ∃ number : SignedDigits, number.bytes = s ∧ number.value = out.toInt

/-- All texts are parsed exactly but those of integers beyond 64 bits. -/
theorem parsesExactly_iff (s : CString) :
    ParsesExactly s ↔ ∀ number : SignedDigits, number.bytes = s → number.InRange := by
  constructor
  · rintro exactly number rfl
    rcases (exactly _).mp (tinoxParseIntChecked_bytes number) with ⟨other, same, isOut⟩
    rw [number.inRange_iff, ← isOut, value_of_bytes same]
  · intro inRange out
    constructor
    · intro parsed
      rcases exists_signedDigits parsed with ⟨number, rfl⟩
      have isOut := Option.some_inj.mp ((tinoxParseIntChecked_bytes number).symm.trans parsed)
      refine ⟨number, rfl, ?_⟩
      rw [← isOut, number.inRange_iff.mp (inRange number rfl)]
    · rintro ⟨number, rfl, isOut⟩
      rw [tinoxParseIntChecked_bytes, isOut, Int64.ofInt_toInt]

/-- The integer after the largest one is stored as the smallest one. -/
theorem largest_succ_notExact :
    tinoxParseIntChecked ("9223372036854775808".toList.map Char.toUInt8) = some Int64.minValue ∧
      ¬ ParsesExactly ("9223372036854775808".toList.map Char.toUInt8) := by
  have isText : "9223372036854775808".toList.map Char.toUInt8 =
      SignedDigits.bytes ⟨.absent, 9, [2, 2, 3, 3, 7, 2, 0, 3, 6, 8, 5, 4, 7, 7, 5, 8, 0, 8]⟩ := by
    decide
  have isStored : tinoxParseIntChecked ("9223372036854775808".toList.map Char.toUInt8) =
      some Int64.minValue := by
    rw [isText, tinoxParseIntChecked_bytes]
    decide
  refine ⟨isStored, fun exactly => ?_⟩
  rcases (exactly _).mp isStored with ⟨number, same, isMin⟩
  rw [value_of_bytes (same.trans isText)] at isMin
  revert isMin
  decide

end Tinox.Runtime
