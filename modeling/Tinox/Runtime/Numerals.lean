import Tinox.Runtime.JsonWrites

/-!
# Numerals

`tinox_string_to_int` reads what `tinox_int_to_string` writes.
-/

namespace Tinox.Runtime

/-- `tinox_string_to_int`: a sign, and digits up to the first byte that is none. -/
def tinoxStringToInt (s : CString) : Int64 :=
  if s.head? = some '-'.toUInt8 then -(readDigits 0 s.tail).1 else (readDigits 0 s).1

theorem readDigits_natBytes (n : Nat) : readDigits 0 (natBytes n) = (Int64.ofNat n, []) := by
  rcases digits_of_nat n with ⟨first, rest, isText, isValue, -⟩
  have isRead := readDigits_spec (first :: rest) 0 (p := []) fun _ isHead =>
    (Option.some_ne_none _ isHead.symm).elim
  rw [List.append_nil, isText] at isRead
  rw [JsonText.decimal] at isValue
  rw [isValue] at isRead
  exact isRead

theorem isDigit_of_mem_natBytes {n : Nat} {b : UInt8} (member : b ∈ natBytes n) :
    isDigit b = true := by
  rcases digits_of_nat n with ⟨first, rest, isText, -⟩
  rw [← isText, digitBytes] at member
  rcases List.mem_map.mp member with ⟨digit, -, rfl⟩
  exact isDigit_byte digit

theorem notMem_natBytes {b : UInt8} (noDigit : isDigit b = false) (n : Nat) : b ∉ natBytes n :=
  fun member => Bool.false_ne_true (noDigit.symm.trans (isDigit_of_mem_natBytes member))

theorem tinoxStringToInt_natBytes (n : Nat) : tinoxStringToInt (natBytes n) = Int64.ofNat n := by
  have noSign : (natBytes n).head? ≠ some '-'.toUInt8 := fun isSign =>
    notMem_natBytes (b := '-'.toUInt8) rfl n (List.mem_of_head? isSign)
  rw [tinoxStringToInt, if_neg noSign, readDigits_natBytes]

theorem printInteger_length {size : Nat} (inMemory : size < 2 ^ 63) :
    printInteger (Int64.ofNat size) = natBytes size := by
  have isInt : (Int64.ofNat size).toInt = size := Int64.toInt_ofNat_of_lt inMemory
  rw [printInteger, isInt, if_neg (Int.not_lt.mpr (Int.natCast_nonneg size)), Int.natAbs_natCast]
  rfl

theorem length_natBytes_le {n : Nat} (small : n < 2 ^ 64) : (natBytes n).length ≤ 20 := by
  rw [natBytes, List.length_map]
  exact (Nat.length_toDigits_le_iff (by decide) (by decide)).mpr (by omega)

end Tinox.Runtime
