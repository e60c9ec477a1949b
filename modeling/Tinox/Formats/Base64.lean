import Tinox.Net.Connection
import Tinox.Runtime.JsonWriter

/-!
# Base64

`Base64::encodeUrlBytes` writes six bits as a character, without padding, and
`Base64::decodeUrlBytes` reads them; `Base64::encodeBytes` and `Base64::decodeBytes` do so with
another alphabet and padding.
-/

namespace Tinox.Formats.Base64

open Tinox.Net Tinox.Runtime

def alphabet : CString :=
  literal ("ABCDEFGHIJKLMNOPQRSTUVWXYZ" ++ "abcdefghijklmnopqrstuvwxyz" ++ "0123456789-_")

/-- `alphabet.substring(c, c + 1)`. -/
def character (c : Int64) : CString :=
  (alphabet.drop c.toInt.toNat).take 1

def c0 (b0 : Int64) : Int64 :=
  (b0 >>> 2) &&& 63

def c1 (b0 b1 : Int64) : Int64 :=
  ((b0 <<< 4) ||| (b1 >>> 4)) &&& 63

def c2 (b1 b2 : Int64) : Int64 :=
  ((b1 <<< 2) ||| (b2 >>> 6)) &&& 63

def c3 (b2 : Int64) : Int64 :=
  b2 &&& 63

/-- `Base64::encodeUrlBytes`. -/
def encodeUrlBytes : List Int64 → CString
  | b0 :: b1 :: b2 :: data =>
      character (c0 b0) ++ character (c1 b0 b1) ++ character (c2 b1 b2) ++ character (c3 b2) ++
        encodeUrlBytes data
  | [b0, b1] => character (c0 b0) ++ character (c1 b0 b1) ++ character (c2 b1 0)
  | [b0] => character (c0 b0) ++ character (c1 b0 0)
  | [] => []

/-- The alphabet of `Base64::encodeBytes`. -/
def paddedAlphabet : CString :=
  literal ("ABCDEFGHIJKLMNOPQRSTUVWXYZ" ++ "abcdefghijklmnopqrstuvwxyz" ++ "0123456789+/")

def paddedCharacter (c : Int64) : CString :=
  (paddedAlphabet.drop c.toInt.toNat).take 1

/-- `Base64::encodeBytes`. -/
def encodeBytes : List Int64 → CString
  | b0 :: b1 :: b2 :: data =>
      paddedCharacter (c0 b0) ++ paddedCharacter (c1 b0 b1) ++ paddedCharacter (c2 b1 b2) ++
        paddedCharacter (c3 b2) ++ encodeBytes data
  | [b0, b1] =>
      paddedCharacter (c0 b0) ++ paddedCharacter (c1 b0 b1) ++ paddedCharacter (c2 b1 0) ++ literal "="
  | [b0] => paddedCharacter (c0 b0) ++ paddedCharacter (c1 b0 0) ++ literal "=" ++ literal "="
  | [] => []

/-- `Base64::urlCharToValue`. -/
def urlCharToValue (code : UInt8) : Int64 :=
  if code ≥ 65 && code ≤ 90 then byteValue code - 65
  else if code ≥ 97 && code ≤ 122 then byteValue code - 97 + 26
  else if code ≥ 48 && code ≤ 57 then byteValue code - 48 + 52
  else if code = 45 then 62
  else if code = 95 then 63
  else 0

def firstByte (v0 v1 : Int64) : Int64 :=
  ((v0 <<< 2) ||| (v1 >>> 4)) &&& 255

def secondByte (v1 v2 : Int64) : Int64 :=
  ((v1 <<< 4) ||| (v2 >>> 2)) &&& 255

def thirdByte (v2 v3 : Int64) : Int64 :=
  ((v2 <<< 6) ||| v3) &&& 255

/-- `Base64::decodeUrlBytes`. -/
def decodeUrlBytes : CString → List Int64
  | e0 :: e1 :: e2 :: e3 :: encoded =>
      let v0 := urlCharToValue e0
      let v1 := urlCharToValue e1
      let v2 := urlCharToValue e2
      let v3 := urlCharToValue e3
      firstByte v0 v1 :: secondByte v1 v2 :: thirdByte v2 v3 :: decodeUrlBytes encoded
  | [e0, e1, e2] =>
      let v0 := urlCharToValue e0
      let v1 := urlCharToValue e1
      let v2 := urlCharToValue e2
      [firstByte v0 v1, secondByte v1 v2]
  | [e0, e1] => [firstByte (urlCharToValue e0) (urlCharToValue e1)]
  | _ => []

/-- `Base64::charToValue`. -/
def charToValue (code : UInt8) : Int64 :=
  if code = 61 then 0
  else if code ≥ 65 && code ≤ 90 then byteValue code - 65
  else if code ≥ 97 && code ≤ 122 then byteValue code - 97 + 26
  else if code ≥ 48 && code ≤ 57 then byteValue code - 48 + 52
  else if code = 43 then 62
  else if code = 47 then 63
  else 0

/-- `Base64::decodeBytes`; what is left behind groups of four is not read. -/
def decodeBytes : CString → List Int64
  | e0 :: e1 :: e2 :: e3 :: encoded =>
      let v0 := charToValue e0
      let v1 := charToValue e1
      let v2 := charToValue e2
      let v3 := charToValue e3
      firstByte v0 v1 :: (if e2 = 61 then [] else [secondByte v1 v2]) ++
        (if e3 = 61 then [] else [thirdByte v2 v3]) ++ decodeBytes encoded
  | _ => []

theorem bits_and_63 (x : Int64) : bits (x &&& 63) = bits x % 64 := by
  rw [bits, Int64.toBitVec_and, BitVec.toNat_and]
  exact Nat.and_two_pow_sub_one_eq_mod _ 6

theorem bits_joined {x y s : Int64} {k : Nat} (isShift : (s.toBitVec.smod 64).toNat = k)
    (small : bits x * 2 ^ k < 2 ^ 64) (below : bits y < 2 ^ k) :
    bits ((x <<< s) ||| y) = bits x * 2 ^ k + bits y :=
  bits_or (bits_shiftLeft isShift small) below

theorem c0_small (b0 : Int64) : bits (c0 b0) < 64 := by
  rw [c0, bits_and_63]
  exact Nat.mod_lt _ (by decide)

theorem c1_small (b0 b1 : Int64) : bits (c1 b0 b1) < 64 := by
  rw [c1, bits_and_63]
  exact Nat.mod_lt _ (by decide)

theorem c2_small (b1 b2 : Int64) : bits (c2 b1 b2) < 64 := by
  rw [c2, bits_and_63]
  exact Nat.mod_lt _ (by decide)

theorem c3_small (b2 : Int64) : bits (c3 b2) < 64 := by
  rw [c3, bits_and_63]
  exact Nat.mod_lt _ (by decide)

variable {b0 b1 b2 : Int64}

theorem bits_c0 (isByte : bits b0 < 256) : bits (c0 b0) = bits b0 / 4 := by
  have isShifted := @bits_shiftRight b0 2 2 (by omega) (by decide)
  rw [c0, bits_and_63, isShifted]
  omega

theorem bits_c1 (isByte : bits b0 < 256) (isNext : bits b1 < 256) :
    bits (c1 b0 b1) = bits b0 % 4 * 16 + bits b1 / 16 := by
  have isShifted := @bits_shiftRight b1 4 4 (by omega) (by decide)
  have isJoined := @bits_joined b0 (b1 >>> 4) 4 4 (by decide) (by omega) (by omega)
  rw [c1, bits_and_63, isJoined, isShifted]
  omega

theorem bits_c2 (isByte : bits b1 < 256) (isNext : bits b2 < 256) :
    bits (c2 b1 b2) = bits b1 % 16 * 4 + bits b2 / 64 := by
  have isShifted := @bits_shiftRight b2 6 6 (by omega) (by decide)
  have isJoined := @bits_joined b1 (b2 >>> 6) 2 2 (by decide) (by omega) (by omega)
  rw [c2, bits_and_63, isJoined, isShifted]
  omega

theorem firstByte_eq (isByte : bits b0 < 256) (isNext : bits b1 < 256) :
    firstByte (c0 b0) (c1 b0 b1) = b0 := by
  have isHigh := bits_c0 isByte
  have isLow := bits_c1 isByte isNext
  have isShifted := @bits_shiftRight (c1 b0 b1) 4 4 (by omega) (by decide)
  have isJoined := @bits_joined (c0 b0) (c1 b0 b1 >>> 4) 2 2 (by decide) (by omega) (by omega)
  apply bits_inj.mp
  rw [firstByte, bits_and, isJoined, isShifted]
  omega

theorem secondByte_eq (isPrevious : bits b0 < 256) (isByte : bits b1 < 256)
    (isNext : bits b2 < 256) : secondByte (c1 b0 b1) (c2 b1 b2) = b1 := by
  have isHigh := bits_c1 isPrevious isByte
  have isLow := bits_c2 isByte isNext
  have isShifted := @bits_shiftRight (c2 b1 b2) 2 2 (by omega) (by decide)
  have isJoined := @bits_joined (c1 b0 b1) (c2 b1 b2 >>> 2) 4 4 (by decide) (by omega) (by omega)
  apply bits_inj.mp
  rw [secondByte, bits_and, isJoined, isShifted]
  omega

theorem thirdByte_eq (isPrevious : bits b1 < 256) (isByte : bits b2 < 256) :
    thirdByte (c2 b1 b2) (c3 b2) = b2 := by
  have isHigh := bits_c2 isPrevious isByte
  have isLow : bits (c3 b2) = bits b2 % 64 := by rw [c3, bits_and_63]
  have isJoined := @bits_joined (c2 b1 b2) (c3 b2) 6 6 (by decide) (by omega) (by omega)
  apply bits_inj.mp
  rw [thirdByte, bits_and, isJoined, isLow]
  omega

set_option maxRecDepth 1024 in
/-- Six bits are read as they are written, and are never written as a dot. -/
theorem character_ofNat : ∀ n : Fin 64,
    character (Int64.ofNat n) = [alphabet.getD n 0] ∧
      urlCharToValue (alphabet.getD n 0) = Int64.ofNat n ∧ alphabet.getD n 0 ≠ 46 := by
  decide

theorem character_spec {c : Int64} (small : bits c < 64) :
    ∃ code, character c = [code] ∧ urlCharToValue code = c ∧ code ≠ 46 := by
  have isNat : Int64.ofNat (bits c) = c := by
    apply bits_inj.mp
    rw [bits_ofNat (by omega)]
  have isSpec := character_ofNat ⟨bits c, small⟩
  rw [isNat] at isSpec
  exact ⟨_, isSpec⟩

set_option maxRecDepth 1024 in
theorem paddedCharacter_ofNat : ∀ n : Fin 64,
    paddedCharacter (Int64.ofNat n) = [paddedAlphabet.getD n 0] ∧
      charToValue (paddedAlphabet.getD n 0) = Int64.ofNat n ∧ paddedAlphabet.getD n 0 ≠ 61 := by
  decide

/-- Six bits are read as they are written, and are never written as padding. -/
theorem paddedCharacter_spec {c : Int64} (small : bits c < 64) :
    ∃ code, paddedCharacter c = [code] ∧ charToValue code = c ∧ code ≠ 61 := by
  have isNat : Int64.ofNat (bits c) = c := by
    apply bits_inj.mp
    rw [bits_ofNat (by omega)]
  have isSpec := paddedCharacter_ofNat ⟨bits c, small⟩
  rw [isNat] at isSpec
  exact ⟨_, isSpec⟩

theorem decodeUrlBytes_encodeUrlBytes : ∀ data : List Int64, (∀ b ∈ data, bits b < 256) →
    decodeUrlBytes (encodeUrlBytes data) = data
  | [], _ => rfl
  | [b0], areBytes => by
      have isByte0 := areBytes b0 (by simp)
      obtain ⟨e0, isChar0, isValue0, -⟩ := character_spec (c0_small b0)
      obtain ⟨e1, isChar1, isValue1, -⟩ := character_spec (c1_small b0 0)
      rw [encodeUrlBytes, isChar0, isChar1, List.singleton_append, decodeUrlBytes, isValue0, isValue1,
        firstByte_eq isByte0 (by decide)]
  | [b0, b1], areBytes => by
      have isByte0 := areBytes b0 (by simp)
      have isByte1 := areBytes b1 (by simp)
      obtain ⟨e0, isChar0, isValue0, -⟩ := character_spec (c0_small b0)
      obtain ⟨e1, isChar1, isValue1, -⟩ := character_spec (c1_small b0 b1)
      obtain ⟨e2, isChar2, isValue2, -⟩ := character_spec (c2_small b1 0)
      rw [encodeUrlBytes, isChar0, isChar1, isChar2]
      simp only [List.cons_append, List.nil_append, decodeUrlBytes, isValue0, isValue1, isValue2]
      rw [firstByte_eq isByte0 isByte1, secondByte_eq isByte0 isByte1 (by decide)]
  | b0 :: b1 :: b2 :: data, areBytes => by
      have isByte0 := areBytes b0 (by simp)
      have isByte1 := areBytes b1 (by simp)
      have isByte2 := areBytes b2 (by simp)
      obtain ⟨e0, isChar0, isValue0, -⟩ := character_spec (c0_small b0)
      obtain ⟨e1, isChar1, isValue1, -⟩ := character_spec (c1_small b0 b1)
      obtain ⟨e2, isChar2, isValue2, -⟩ := character_spec (c2_small b1 b2)
      obtain ⟨e3, isChar3, isValue3, -⟩ := character_spec (c3_small b2)
      have others := decodeUrlBytes_encodeUrlBytes data fun b isMem => areBytes b (by simp [isMem])
      rw [encodeUrlBytes, isChar0, isChar1, isChar2, isChar3]
      simp only [List.cons_append, List.nil_append, decodeUrlBytes, isValue0, isValue1, isValue2,
        isValue3, others]
      rw [firstByte_eq isByte0 isByte1, secondByte_eq isByte0 isByte1 isByte2,
        thirdByte_eq isByte1 isByte2]

theorem decodeBytes_encodeBytes : ∀ data : List Int64, (∀ b ∈ data, bits b < 256) →
    decodeBytes (encodeBytes data) = data
  | [], _ => rfl
  | [b0], areBytes => by
      have isByte0 := areBytes b0 (by simp)
      obtain ⟨e0, isChar0, isValue0, -⟩ := paddedCharacter_spec (c0_small b0)
      obtain ⟨e1, isChar1, isValue1, -⟩ := paddedCharacter_spec (c1_small b0 0)
      rw [encodeBytes, isChar0, isChar1]
      change decodeBytes [e0, e1, 61, 61] = [b0]
      simp only [decodeBytes, isValue0, isValue1, if_true, List.append_nil]
      rw [firstByte_eq isByte0 (by decide)]
  | [b0, b1], areBytes => by
      have isByte0 := areBytes b0 (by simp)
      have isByte1 := areBytes b1 (by simp)
      obtain ⟨e0, isChar0, isValue0, -⟩ := paddedCharacter_spec (c0_small b0)
      obtain ⟨e1, isChar1, isValue1, -⟩ := paddedCharacter_spec (c1_small b0 b1)
      obtain ⟨e2, isChar2, isValue2, notPadding2⟩ := paddedCharacter_spec (c2_small b1 0)
      rw [encodeBytes, isChar0, isChar1, isChar2]
      change decodeBytes [e0, e1, e2, 61] = [b0, b1]
      simp only [decodeBytes, isValue0, isValue1, isValue2, if_neg notPadding2, if_true,
        List.append_nil]
      rw [firstByte_eq isByte0 isByte1, secondByte_eq isByte0 isByte1 (by decide)]
  | b0 :: b1 :: b2 :: data, areBytes => by
      have isByte0 := areBytes b0 (by simp)
      have isByte1 := areBytes b1 (by simp)
      have isByte2 := areBytes b2 (by simp)
      obtain ⟨e0, isChar0, isValue0, -⟩ := paddedCharacter_spec (c0_small b0)
      obtain ⟨e1, isChar1, isValue1, -⟩ := paddedCharacter_spec (c1_small b0 b1)
      obtain ⟨e2, isChar2, isValue2, notPadding2⟩ := paddedCharacter_spec (c2_small b1 b2)
      obtain ⟨e3, isChar3, isValue3, notPadding3⟩ := paddedCharacter_spec (c3_small b2)
      have others := decodeBytes_encodeBytes data fun b isMem => areBytes b (by simp [isMem])
      rw [encodeBytes, isChar0, isChar1, isChar2, isChar3]
      simp only [List.cons_append, List.nil_append, decodeBytes, isValue0, isValue1, isValue2,
        isValue3, if_neg notPadding2, if_neg notPadding3, others]
      rw [firstByte_eq isByte0 isByte1, secondByte_eq isByte0 isByte1 isByte2,
        thirdByte_eq isByte1 isByte2]

theorem noDot_encodeUrlBytes : ∀ data : List Int64, 46 ∉ encodeUrlBytes data
  | [] => by simp [encodeUrlBytes]
  | [b0] => by
      obtain ⟨e0, isChar0, -, notDot0⟩ := character_spec (c0_small b0)
      obtain ⟨e1, isChar1, -, notDot1⟩ := character_spec (c1_small b0 0)
      simp [encodeUrlBytes, isChar0, isChar1, notDot0.symm, notDot1.symm]
  | [b0, b1] => by
      obtain ⟨e0, isChar0, -, notDot0⟩ := character_spec (c0_small b0)
      obtain ⟨e1, isChar1, -, notDot1⟩ := character_spec (c1_small b0 b1)
      obtain ⟨e2, isChar2, -, notDot2⟩ := character_spec (c2_small b1 0)
      simp [encodeUrlBytes, isChar0, isChar1, isChar2, notDot0.symm, notDot1.symm, notDot2.symm]
  | b0 :: b1 :: b2 :: data => by
      obtain ⟨e0, isChar0, -, notDot0⟩ := character_spec (c0_small b0)
      obtain ⟨e1, isChar1, -, notDot1⟩ := character_spec (c1_small b0 b1)
      obtain ⟨e2, isChar2, -, notDot2⟩ := character_spec (c2_small b1 b2)
      obtain ⟨e3, isChar3, -, notDot3⟩ := character_spec (c3_small b2)
      simp [encodeUrlBytes, isChar0, isChar1, isChar2, isChar3, notDot0.symm, notDot1.symm,
        notDot2.symm, notDot3.symm, noDot_encodeUrlBytes data]

end Tinox.Formats.Base64
