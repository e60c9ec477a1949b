import Mathlib.Algebra.Ring.Divisibility.Basic
import Mathlib.Data.Rat.Defs
import Mathlib.Tactic.FieldSimp
import Mathlib.Tactic.Linarith
import Tinox.Runtime.CheckedIntegers
import Tinox.Runtime.Numerals

/-!
# Decimals

`Decimal` keeps a number as the text of an integer and a scale.  It computes with 64 bits, and it
places the decimal point by the length of the text, in which a sign counts as a digit.
-/

namespace Tinox.Core

open Tinox.Runtime
open JsonText (decimal)

/-- `Decimal`. -/
structure Decimal where
  value : CString
  scale : Int64

namespace Decimal

/-- A loop that appends a text in each round. -/
def appendLoop (piece : CString) : Nat → CString → CString
  | 0, result => result
  | rounds + 1, result => appendLoop piece rounds (result ++ piece)

/-- `Decimal::scaleValue`. -/
def scaleValue (value : CString) (digits : Int64) : CString :=
  if digits = 0 then value else appendLoop (literal "0") digits.toInt.toNat value

/-- `Decimal::addStrings`. -/
def addStrings (a b : CString) : CString :=
  printInteger (tinoxStringToInt a + tinoxStringToInt b)

/-- `Decimal::subtractStrings`. -/
def subtractStrings (a b : CString) : CString :=
  printInteger (tinoxStringToInt a - tinoxStringToInt b)

/-- `Decimal::multiplyStrings`. -/
def multiplyStrings (a b : CString) : CString :=
  printInteger (tinoxStringToInt a * tinoxStringToInt b)

/-- The `scale` of `add` and `subtract`. -/
def larger (a b : Int64) : Int64 :=
  if a > b then a else b

/-- `Decimal::add`. -/
def add (a b : Decimal) : Decimal :=
  let scale := larger a.scale b.scale
  ⟨addStrings (scaleValue a.value (scale - a.scale)) (scaleValue b.value (scale - b.scale)), scale⟩

/-- `Decimal::subtract`. -/
def subtract (a b : Decimal) : Decimal :=
  let scale := larger a.scale b.scale
  ⟨subtractStrings (scaleValue a.value (scale - a.scale)) (scaleValue b.value (scale - b.scale)),
    scale⟩

/-- `Decimal::multiply`. -/
def multiply (a b : Decimal) : Decimal :=
  ⟨multiplyStrings a.value b.value, a.scale + b.scale⟩

/-- `Strings::repeat`. -/
def repeat_ (s : CString) (count : Int64) : CString :=
  appendLoop s count.toInt.toNat []

/-- `tinox_string_substring`. -/
def substring (s : CString) (start stop : Int64) : CString :=
  (s.take stop.toInt.toNat).drop start.toInt.toNat

/-- `Decimal::toString`. -/
def toString (d : Decimal) : CString :=
  let len := Int64.ofNat d.value.length
  if d.scale = 0 then d.value
  else if len ≤ d.scale then
    literal "0." ++ repeat_ (literal "0") (d.scale - len + 1) ++ d.value
  else substring d.value 0 (len - d.scale) ++ literal "." ++ substring d.value (len - d.scale) len

/-- The number that digits write. -/
def natural (digits : CString) : Option Nat :=
  if digits ≠ [] ∧ digits.all isDigit then
    some (digits.foldl (fun n b => n * 10 + (b - '0'.toUInt8).toNat) 0)
  else none

/-- The number that decimal notation without a sign writes. -/
def unsignedOf (text : CString) : Option ℚ :=
  match text.dropWhile isDigit with
  | [] => (natural text).map (↑)
  | b :: fraction =>
      if b = '.'.toUInt8 ∧ text.takeWhile isDigit ≠ [] ∧ fraction ≠ [] then
        (natural (text.takeWhile isDigit ++ fraction)).map fun n : Nat => (n : ℚ) / 10 ^ fraction.length
      else none

/-- The number that decimal notation writes. -/
def rationalOf (text : CString) : Option ℚ :=
  if isAt '-' text then (unsignedOf text.tail).map (-·) else unsignedOf text

/-- The number that a decimal denotes. -/
def denotes (d : Decimal) : Option ℚ :=
  (rationalOf d.value).map (· / 10 ^ d.scale.toInt)

/-- The integer is one of 64 bits. -/
def Fits (n : Int) : Prop :=
  -2 ^ 63 ≤ n ∧ n < 2 ^ 63

section Numerals

variable (n : SignedDigits) (scale top : Int64)

/-- The number that digits denote at a scale. -/
def quotient : ℚ :=
  n.value / 10 ^ scale.toInt

/-- The integer that denotes the same number at a larger scale. -/
def rescaled : Int :=
  n.value * 10 ^ (top.toInt - scale.toInt).toNat

/-- The integer of the text with zeros appended. -/
def padded : Int :=
  n.value * 10 ^ (top - scale).toInt.toNat

/-- The number of zeros that are missing is an integer of 64 bits, or zeros make no difference. -/
def Rescales : Prop :=
  top.toInt - scale.toInt < 2 ^ 63 ∨ (2 ^ 64 : Int) ∣ n.value

end Numerals

/-- The sum or the difference at the larger scale is an integer of 64 bits. -/
def Sums (p q : SignedDigits) (s t : Int64) (sign : Int) : Prop :=
  Fits (rescaled p s (larger s t) + sign * rescaled q t (larger s t)) ∧
    Rescales p s (larger s t) ∧ Rescales q t (larger s t)

/-- The notation of a decimal writes its number: the point stands behind a digit. -/
def Writes (n : SignedDigits) (scale : Int) : Prop :=
  scale = 0 ∨ 0 < scale ∧ (scale < n.digits.length ∨ n.sign = .absent ∧ n.value = 0)

variable {n : SignedDigits}

theorem digitBytes_append (digits more : List (Fin 10)) :
    digitBytes (digits ++ more) = digitBytes digits ++ digitBytes more :=
  List.map_append

theorem areDigits (digits : List (Fin 10)) : ∀ b ∈ digitBytes digits, isDigit b = true := by
  rw [digitBytes, List.forall_mem_map]
  exact fun digit _ => isDigit_byte digit

theorem natural_digitBytes (digits : List (Fin 10)) (some_ : digits ≠ []) :
    natural (digitBytes digits) = some (decimal digits) := by
  rw [natural, if_pos ⟨List.map_eq_nil_iff.not.mpr some_, List.all_eq_true.mpr (areDigits digits)⟩]
  simp only [digitBytes, List.foldl_map, digit_value, decimal]

theorem unsignedOf_point (whole : List (Fin 10)) (fraction : CString) :
    unsignedOf (digitBytes whole ++ '.'.toUInt8 :: fraction) =
      if whole ≠ [] ∧ fraction ≠ [] then
        (natural (digitBytes whole ++ fraction)).map fun n : Nat => (n : ℚ) / 10 ^ fraction.length
      else none := by
  have noDigit : ¬isDigit '.'.toUInt8 = true := nofun
  rw [unsignedOf, List.takeWhile_append_of_pos (areDigits whole),
    List.dropWhile_append_of_pos (areDigits whole), List.takeWhile_cons_of_neg noDigit,
    List.dropWhile_cons_of_neg noDigit, List.append_nil]
  simp [digitBytes]

theorem isAt_digits (digits : List (Fin 10)) {rest : CString} (unseen : isAt '-' rest = false) :
    isAt '-' (digitBytes digits ++ rest) = false := by
  cases digits with
  | nil => exact unseen
  | cons digit digits =>
      exact decide_eq_false fun isMinus => (digit_ne_sign digit).1 (Option.some_inj.mp isMinus)

/-- Without a plus the sign is a minus, or nothing. -/
theorem sign_or_digits (noPlus : n.sign ≠ .plus) :
    n.sign = .minus ∧ n.bytes = '-'.toUInt8 :: digitBytes n.digits ∧
        n.value = -(decimal n.digits : Int) ∨
      n.sign = .absent ∧ n.bytes = digitBytes n.digits ∧ n.value = decimal n.digits := by
  rcases n with ⟨sign, first, rest⟩
  cases sign with
  | absent => exact .inr ⟨rfl, rfl, rfl⟩
  | plus => exact (noPlus rfl).elim
  | minus => exact .inl ⟨rfl, rfl, rfl⟩

theorem not_isAt_digits (n : SignedDigits) : ¬isAt '-' (digitBytes n.digits) = true :=
  Bool.eq_false_iff.mp (sign_bytes ⟨.absent, n.first, n.rest⟩).1

theorem rationalOf_bytes (noPlus : n.sign ≠ .plus) : rationalOf n.bytes = some (n.value : ℚ) := by
  have isNatural : unsignedOf (digitBytes n.digits) = some (decimal n.digits : ℚ) := by
    rw [unsignedOf, List.dropWhile_eq_nil_iff.mpr (areDigits n.digits),
      natural_digitBytes n.digits (List.cons_ne_nil _ _)]
    rfl
  rcases sign_or_digits noPlus with ⟨-, isText, isValue⟩ | ⟨-, isText, isValue⟩
  · rw [rationalOf, isText, if_pos ((isAt_cons_iff _ _ _).mpr rfl), List.tail_cons, isNatural, isValue,
      Int.cast_neg]
    rfl
  · rw [rationalOf, isText, if_neg (not_isAt_digits n), isNatural, isValue]
    rfl

theorem rationalOf_printInteger (v : Int64) : rationalOf (printInteger v) = some (v.toInt : ℚ) := by
  rcases printInteger_spec v with ⟨⟨minus, first, rest, noLeadingZero, fits⟩, isText, isValue⟩
  rw [← isText, ← isValue, integer_bytes]
  cases minus with
  | true => exact rationalOf_bytes (n := ⟨.minus, first, rest⟩) nofun
  | false => exact rationalOf_bytes (n := ⟨.absent, first, rest⟩) nofun

/-- Digits are read modulo 64 bits. -/
theorem tinoxStringToInt_bytes (noPlus : n.sign ≠ .plus) :
    tinoxStringToInt n.bytes = Int64.ofInt n.value := by
  have read : (readDigits 0 (digitBytes n.digits)).1 = Int64.ofNat (decimal n.digits) := by
    have isRead := readDigits_spec n.digits 0 (p := []) fun _ isHead =>
      (Option.some_ne_none _ isHead.symm).elim
    rw [List.append_nil] at isRead
    rw [decimal]
    exact congrArg Prod.fst isRead
  rcases sign_or_digits noPlus with ⟨-, isText, isValue⟩ | ⟨-, isText, isValue⟩
  · rw [tinoxStringToInt, isText, if_pos List.head?_cons, List.tail_cons, read, isValue,
      ← Int64.neg_ofInt, Int64.ofInt_eq_ofNat]
  · rw [tinoxStringToInt, isText, if_neg fun isMinus => not_isAt_digits n (decide_eq_true isMinus), read,
      isValue, Int64.ofInt_eq_ofNat]

theorem appendLoop_zeros (rounds : Nat) (result : CString) :
    appendLoop (literal "0") rounds result = result ++ digitBytes (List.replicate rounds 0) := by
  induction rounds generalizing result with
  | zero => exact (List.append_nil result).symm
  | succ rounds ih =>
      rw [appendLoop, ih, List.append_assoc]
      rfl

theorem decimal_zeros (digits : List (Fin 10)) (zeros : Nat) :
    decimal (digits ++ List.replicate zeros 0) = decimal digits * 10 ^ zeros := by
  induction zeros with
  | zero => simp
  | succ zeros ih =>
      rw [List.replicate_succ', ← List.append_assoc, decimal, List.foldl_append, ← decimal, ih,
        pow_succ, ← mul_assoc]
      rfl

theorem tinoxStringToInt_scaleValue (noPlus : n.sign ≠ .plus) (scale top : Int64) :
    tinoxStringToInt (scaleValue n.bytes (top - scale)) = Int64.ofInt (padded n scale top) := by
  have appended : scaleValue n.bytes (top - scale) =
      n.bytes ++ digitBytes (List.replicate (top - scale).toInt.toNat 0) := by
    rw [scaleValue, ← appendLoop_zeros]
    split
    next none_ => rw [none_]; rfl
    next => rfl
  rw [SignedDigits.bytes, List.append_assoc, ← digitBytes_append] at appended
  have isValue : padded n scale top = SignedDigits.value
      ⟨n.sign, n.first, n.rest ++ List.replicate (top - scale).toInt.toNat 0⟩ := by
    rw [SignedDigits.value, SignedDigits.digits, ← List.cons_append, decimal_zeros, padded,
      SignedDigits.value, ite_mul, neg_mul]
    push_cast
    rfl
  rw [SignedDigits.bytes, appended, isValue]
  exact tinoxStringToInt_bytes (n := ⟨n.sign, n.first, n.rest ++ _⟩) noPlus

theorem two_pow_dvd {k : Nat} (many : 64 ≤ k) : (2 ^ 64 : Int) ∣ 10 ^ k :=
  (pow_dvd_pow_of_dvd (by decide) 64).trans (pow_dvd_pow 10 many)

theorem rescales_iff {scale top : Int64} (ordered : scale ≤ top) :
    (2 ^ 64 : Int) ∣ rescaled n scale top - padded n scale top ↔ Rescales n scale top := by
  rw [Int64.le_iff_toInt_le] at ordered
  have low := Int64.le_toInt scale
  have high := Int64.toInt_lt top
  rw [Rescales, rescaled, padded, Int64.toInt_sub]
  by_cases near : top.toInt - scale.toInt < 2 ^ 63
  · rw [Int.bmod_eq_of_le (by omega) (by omega), sub_self]
    exact iff_of_true (dvd_zero _) (.inl near)
  · have none_ : ((top.toInt - scale.toInt).bmod (2 ^ 64)).toNat = 0 := by
      rw [Int.bmod_def]
      omega
    rw [none_, pow_zero, mul_one, dvd_sub_right ((two_pow_dvd (by omega)).mul_left _)]
    exact (or_iff_right near).symm

theorem zpow_split {u u' : Int} (ordered : u ≤ u') :
    (10 : ℚ) ^ u' = 10 ^ u * 10 ^ (u' - u).toNat := by
  rw [← zpow_natCast, ← zpow_add₀ (by norm_num), Int.toNat_of_nonneg (by omega), add_sub_cancel]

theorem quotient_eq {scale top : Int64} (ordered : scale ≤ top) :
    quotient n scale = (rescaled n scale top : ℚ) / 10 ^ top.toInt := by
  rw [quotient, rescaled, zpow_split (Int64.le_iff_toInt_le.mp ordered)]
  push_cast
  field_simp

/-- What the text of a wrapped integer denotes. -/
theorem denotes_iff {v m : Int} {scale : Int64} {x : ℚ} (same : x = m / 10 ^ scale.toInt) :
    (⟨printInteger (Int64.ofInt v), scale⟩ : Decimal).denotes = some x ↔
      Fits m ∧ (2 ^ 64 : Int) ∣ m - v := by
  rw [denotes, rationalOf_printInteger, Option.map_some, Option.some_inj, same,
    div_left_inj' (zpow_ne_zero _ (by norm_num)), Int.cast_inj, Int64.toInt_ofInt,
    Int.bmod_eq_iff (by decide), ← and_assoc]
  rfl

section Operations

variable {p q : SignedDigits} {s t : Int64}

/-- One of two texts is left as it is, so that only the other can have too few zeros. -/
theorem sums_iff {sign : Int} (isUnit : IsUnit sign) :
    (⟨printInteger (Int64.ofInt (padded p s (larger s t) + sign * padded q t (larger s t))),
        larger s t⟩ : Decimal).denotes = some (quotient p s + sign * quotient q t) ↔
      Sums p q s t sign := by
  have unchanged : ∀ (n : SignedDigits) (scale : Int64),
      rescaled n scale scale - padded n scale scale = 0 := by
    intro n scale
    rw [rescaled, padded, sub_self, Int64.sub_self]
    exact sub_self _
  have isLarger : s ≤ larger s t ∧ t ≤ larger s t ∧ (larger s t = s ∨ larger s t = t) := by
    rw [larger]
    split
    next more => exact ⟨Int64.le_refl s, Int64.le_of_lt more, .inl rfl⟩
    next notMore => exact ⟨Int64.not_lt.mp notMore, Int64.le_refl t, .inr rfl⟩
  rcases isLarger with ⟨left, right, isOne⟩
  rw [denotes_iff (m := rescaled p s (larger s t) + sign * rescaled q t (larger s t)), Sums,
    ← rescales_iff left, ← rescales_iff right, add_sub_add_comm, ← mul_sub]
  · apply and_congr_right'
    rcases isOne with isOne | isOne
    · rw [isOne, unchanged, zero_add, isUnit.dvd_mul_left]
      exact (and_iff_right (dvd_zero _)).symm
    · rw [isOne, unchanged, mul_zero, add_zero]
      exact (and_iff_left (dvd_zero _)).symm
  · rw [quotient_eq left, quotient_eq right, Int.cast_add, Int.cast_mul, add_div, mul_div_assoc]

theorem add_iff (noPlus : p.sign ≠ .plus) (noPlus' : q.sign ≠ .plus) :
    (add ⟨p.bytes, s⟩ ⟨q.bytes, t⟩).denotes = some (quotient p s + quotient q t) ↔
      Sums p q s t 1 := by
  rw [← sums_iff isUnit_one, add, addStrings, tinoxStringToInt_scaleValue noPlus,
    tinoxStringToInt_scaleValue noPlus', ← Int64.ofInt_add, one_mul, Int.cast_one, one_mul]

theorem subtract_iff (noPlus : p.sign ≠ .plus) (noPlus' : q.sign ≠ .plus) :
    (subtract ⟨p.bytes, s⟩ ⟨q.bytes, t⟩).denotes = some (quotient p s - quotient q t) ↔
      Sums p q s t (-1) := by
  rw [← sums_iff isUnit_one.neg, subtract, subtractStrings, tinoxStringToInt_scaleValue noPlus,
    tinoxStringToInt_scaleValue noPlus', ← Int64.ofInt_sub, neg_one_mul, ← sub_eq_add_neg,
    Int.cast_neg, Int.cast_one, neg_one_mul, ← sub_eq_add_neg]

/-- A number at two scales that are far apart ends with zeros. -/
theorem dvd_of_far {v w u u' : Int} (same : (w : ℚ) / 10 ^ u = v / 10 ^ u') (far : u + 64 ≤ u') :
    (2 ^ 64 : Int) ∣ v := by
  have isProduct : v = w * 10 ^ (u' - u).toNat := by
    rw [zpow_split (by omega : u ≤ u')] at same
    field_simp at same
    exact_mod_cast same.symm
  rw [isProduct]
  exact (two_pow_dvd (by omega)).mul_left w

theorem multiply_iff (noPlus : p.sign ≠ .plus) (noPlus' : q.sign ≠ .plus) :
    (multiply ⟨p.bytes, s⟩ ⟨q.bytes, t⟩).denotes = some (quotient p s * quotient q t) ↔
      Fits (s.toInt + t.toInt) ∧ Fits (p.value * q.value) ∨ p.value * q.value = 0 := by
  have product : quotient p s * quotient q t =
      (p.value * q.value : Int) / 10 ^ (s.toInt + t.toInt) := by
    rw [quotient, quotient, div_mul_div_comm, ← zpow_add₀ (by norm_num), Int.cast_mul]
  rw [multiply, multiplyStrings, tinoxStringToInt_bytes noPlus, tinoxStringToInt_bytes noPlus',
    ← Int64.ofInt_mul, product]
  generalize p.value * q.value = v
  by_cases inRange : Fits (s.toInt + t.toInt)
  · have isScale : (s + t).toInt = s.toInt + t.toInt := by
      rw [Int64.toInt_add, Int.bmod_eq_of_le inRange.1 inRange.2]
    rw [denotes_iff (m := v) (by rw [isScale]), sub_self, and_iff_left (dvd_zero _),
      and_iff_right inRange, iff_self_or]
    rintro rfl
    exact ⟨by decide, by decide⟩
  · have isFar : (s + t).toInt + 64 ≤ s.toInt + t.toInt ∨
        s.toInt + t.toInt + 64 ≤ (s + t).toInt := by
      have leftLow := Int64.le_toInt s
      have leftHigh := Int64.toInt_lt s
      have rightLow := Int64.le_toInt t
      have rightHigh := Int64.toInt_lt t
      rw [Fits] at inRange
      rw [Int64.toInt_add, Int.bmod_def]
      omega
    have low := Int64.le_toInt (Int64.ofInt v)
    have high := Int64.toInt_lt (Int64.ofInt v)
    have near : (2 ^ 64 : Int) ∣ (Int64.ofInt v).toInt - v := by
      rw [Int64.toInt_ofInt]
      exact Int.dvd_bmod_sub_self
    rw [denotes, rationalOf_printInteger, Option.map_some, Option.some_inj,
      or_iff_right fun both => inRange both.1]
    constructor
    · intro same
      have isMultiple : (2 ^ 64 : Int) ∣ (Int64.ofInt v).toInt :=
        isFar.elim (fun far => (dvd_sub_left (dvd_of_far same far)).mp near) (dvd_of_far same.symm)
      have isZero : (Int64.ofInt v).toInt = 0 := by omega
      rw [isZero, Int.cast_zero, zero_div, eq_comm, div_eq_zero_iff] at same
      exact Int.cast_eq_zero.mp (same.resolve_right (zpow_ne_zero _ (by norm_num)))
    · rintro rfl
      simp

end Operations

/-- The point stands somewhere in the digits. -/
theorem unsignedOf_cut (n : SignedDigits) (cut : Nat) :
    unsignedOf ((digitBytes n.digits).take cut ++ '.'.toUInt8 :: (digitBytes n.digits).drop cut) =
      if 0 < cut ∧ cut < n.digits.length then
        some ((decimal n.digits : ℚ) / 10 ^ (n.digits.length - cut))
      else none := by
  have isSome : n.digits.take cut ≠ [] ∧ digitBytes (n.digits.drop cut) ≠ [] ↔
      0 < cut ∧ cut < n.digits.length := by
    simp [digitBytes, SignedDigits.digits, Nat.pos_iff_ne_zero]
  have isText := unsignedOf_point (n.digits.take cut) (digitBytes (n.digits.drop cut))
  rw [← digitBytes_append, List.take_append_drop,
    natural_digitBytes n.digits (List.cons_ne_nil _ _), if_congr isSome rfl rfl] at isText
  rw [digitBytes, ← List.map_take, ← List.map_drop]
  refine isText.trans ?_
  rw [digitBytes, List.length_map, List.length_drop]
  rfl

theorem rationalOf_cut (noPlus : n.sign ≠ .plus) (cut : Nat) :
    rationalOf (n.bytes.take cut ++ '.'.toUInt8 :: n.bytes.drop cut) =
      if n.sign.bytes.length < cut ∧ cut < n.bytes.length then
        some ((n.value : ℚ) / 10 ^ (n.bytes.length - cut))
      else none := by
  have isCut := unsignedOf_cut n
  rcases sign_or_digits noPlus with ⟨isSign, isText, isValue⟩ | ⟨isSign, isText, isValue⟩
  · cases cut with
    | zero =>
        have noWhole := unsignedOf_point [] n.bytes
        rw [if_neg fun both => both.1 rfl] at noWhole
        rw [if_neg fun both => Nat.not_lt_zero _ both.1]
        exact noWhole
    | succ cut =>
        rw [isText, isSign, isValue, List.take_succ_cons, List.drop_succ_cons]
        change (unsignedOf _).map (-·) = _
        rw [List.cons_append, List.tail_cons, isCut, apply_ite (Option.map _)]
        simp [Sign.bytes, digitBytes, neg_div]
  · have unseen := @isAt_digits (n.digits.take cut) ('.'.toUInt8 :: n.bytes.drop cut) rfl
    rw [digitBytes, List.map_take, ← digitBytes, ← isText] at unseen
    rw [rationalOf, unseen, isSign, isText, if_neg Bool.false_ne_true, isCut, isValue]
    simp [Sign.bytes, digitBytes]

/-- Zeros are written before a sign. -/
theorem rationalOf_short (noPlus : n.sign ≠ .plus) {zeros : Nat} {scale : Int64}
    (isLen : (zeros + n.bytes.length : Int) = scale.toInt + 1) :
    rationalOf (literal "0." ++ digitBytes (List.replicate zeros 0) ++ n.bytes) =
      some (quotient n scale) ↔ n.sign = .absent ∧ n.value = 0 := by
  have isText : literal "0." ++ digitBytes (List.replicate zeros 0) ++ n.bytes =
      digitBytes [0] ++ '.'.toUInt8 :: (digitBytes (List.replicate zeros 0) ++ n.bytes) :=
    List.append_assoc _ _ _
  have some_ : n.bytes ≠ [] := List.append_ne_nil_of_right_ne_nil _ (List.cons_ne_nil _ _)
  rw [isText, rationalOf, if_neg (by exact Bool.false_ne_true), unsignedOf_point,
    if_pos ⟨List.cons_ne_nil 0 [], List.append_ne_nil_of_right_ne_nil _ some_⟩]
  rcases sign_or_digits noPlus with ⟨isSign, isBytes, -⟩ | ⟨isSign, isBytes, isValue⟩
  · rw [natural, if_neg]
    · simp [isSign]
    · rintro ⟨-, all⟩
      rw [isBytes] at all
      exact Bool.false_ne_true (List.all_eq_true.mp all '-'.toUInt8 (by simp))
  · have leading : decimal ([0] ++ (List.replicate zeros 0 ++ n.digits)) = decimal n.digits := by
      rw [← List.append_assoc, List.singleton_append, ← List.replicate_succ]
      induction zeros + 1 with
      | zero => rfl
      | succ zeros ih => exact ih
    have power : (10 : ℚ) ^ (digitBytes (List.replicate zeros 0 ++ n.digits)).length =
        10 ^ scale.toInt * 10 := by
      rw [← zpow_natCast, ← zpow_add_one₀ (by norm_num), ← isLen, isBytes]
      simp [digitBytes]
    rw [isBytes, ← digitBytes_append, ← digitBytes_append, natural_digitBytes, leading,
      Option.map_some, Option.some_inj, power, quotient, isValue, Int.cast_natCast,
      and_iff_right isSign]
    · have positive : (0 : ℚ) < 10 ^ scale.toInt := zpow_pos (by norm_num) _
      field_simp
      norm_cast
      omega
    · exact List.cons_ne_nil _ _

theorem toString_iff (noPlus : n.sign ≠ .plus) (inMemory : n.bytes.length < 2 ^ 63) {s : Int64} :
    rationalOf (toString ⟨n.bytes, s⟩) = some (quotient n s) ↔ Writes n s.toInt := by
  have isLen : (Int64.ofNat n.bytes.length).toInt = n.bytes.length :=
    Int64.toInt_ofNat_of_lt inMemory
  have isSum : n.bytes.length = n.sign.bytes.length + n.digits.length := by
    rw [SignedDigits.bytes, List.length_append, digitBytes, List.length_map]
  have some_ : 0 < n.digits.length := Nat.succ_pos _
  have low := Int64.le_toInt s
  have high := Int64.toInt_lt s
  rw [toString, Writes]
  dsimp only
  split
  next isZero =>
    rw [rationalOf_bytes noPlus, isZero, quotient]
    simp
  next notZero =>
    have notZero : s.toInt ≠ 0 := fun isZero => notZero (Int64.toInt_inj.mp isZero)
    rw [or_iff_right notZero]
    split
    next short =>
      rw [Int64.le_iff_toInt_le, isLen] at short
      have isCount : (s - Int64.ofNat n.bytes.length + 1).toInt = s.toInt - n.bytes.length + 1 := by
        rw [Int64.toInt_add, Int64.toInt_sub, isLen, Int.bmod_add_bmod, Int64.toInt_one]
        apply Int.bmod_eq_of_le <;> omega
      rw [repeat_, isCount, appendLoop_zeros, List.nil_append, rationalOf_short noPlus (by omega)]
      constructor
      · exact fun isZero => ⟨by omega, .inr isZero⟩
      · rintro ⟨-, more | isZero⟩
        · omega
        · exact isZero
    next long =>
      rw [Int64.le_iff_toInt_le, isLen, not_le] at long
      have signLen : n.sign.bytes.length ≤ 1 ∧ (n.sign = .absent → n.sign.bytes.length = 0) := by
        cases n.sign <;> simp [Sign.bytes]
      have isCut := Int64.toInt_sub (Int64.ofNat n.bytes.length) s
      rw [isLen, Int.bmod_def] at isCut
      rw [substring, substring, isLen, Int.toNat_natCast, List.take_length, List.append_assoc]
      generalize (Int64.ofNat n.bytes.length - s).toInt = cut at isCut ⊢
      change rationalOf (List.take cut.toNat _ ++ '.'.toUInt8 :: List.drop _ _) = _ ↔ _
      rw [rationalOf_cut noPlus]
      split
      next inside =>
        have isScale : ((n.bytes.length - cut.toNat : Nat) : Int) = s.toInt := by omega
        rw [quotient, ← isScale, zpow_natCast]
        exact iff_of_true rfl ⟨by omega, .inl (by omega)⟩
      next outside =>
        refine iff_of_false (Option.some_ne_none _).symm ?_
        rintro ⟨isPos, below | ⟨isAbsent, -⟩⟩
        · omega
        · have noSign := signLen.2 isAbsent
          omega

end Decimal

end Tinox.Core
