import Tinox.Formats.Base64
import Tinox.Net.Http2Frames
import Tinox.Runtime.JsonWrites

/-!
# Codecs of bytes as text

`Hex` writes a byte as two digits, and `Uri` writes those that may not stand in a URI so, behind a
percent sign.  What is written is read back by each of the codecs.
-/

namespace Tinox.Formats

open Tinox.Net Tinox.Runtime

/-- `tinox_from_char_code`. -/
def fromCharCode (c : Int64) : CString :=
  cString [lowByte c]

namespace Hex

/-- `Hex::nibbleToChar`. -/
def nibbleToChar (n : Int64) : CString :=
  if n < 10 then fromCharCode (n + 48) else fromCharCode (n + 87)

/-- `Hex::charToNibble`. -/
def charToNibble (c : CString) : Int64 :=
  let code := charCodeAt c 0
  if code ≥ 48 && code ≤ 57 then code - 48
  else if code ≥ 97 && code ≤ 102 then code - 87
  else if code ≥ 65 && code ≤ 70 then code - 55
  else 0

/-- `Hex::encode`. -/
def encode : CString → CString
  | [] => []
  | b :: data =>
      let byte := byteValue b
      nibbleToChar ((byte >>> 4) &&& 15) ++ nibbleToChar (byte &&& 15) ++ encode data

/-- `Hex::decodeBytes`; the second digit of the last byte may be missing. -/
def decodeBytes : CString → List Int64
  | [] => []
  | [high] => [(charToNibble [high] <<< 4) ||| charToNibble []]
  | high :: low :: hex => ((charToNibble [high] <<< 4) ||| charToNibble [low]) :: decodeBytes hex

/-- The digit of a number below sixteen. -/
def digit (n : Nat) : UInt8 :=
  (literal "0123456789abcdef").getD n 0

theorem digit_spec : ∀ n : Fin 16, nibbleToChar (Int64.ofNat n) = [digit n] ∧
    charToNibble [digit n] = Int64.ofNat n := by
  decide

end Hex

set_option maxRecDepth 1024 in
/-- The two halves of a byte are numbers below sixteen, which make the byte again. -/
theorem halves_spec : ∀ n : Fin 256,
    (Int64.ofNat n >>> 4) &&& 15 = Int64.ofNat (n / 16) ∧ Int64.ofNat n &&& 15 = Int64.ofNat (n % 16) ∧
      (Int64.ofNat (n / 16) <<< 4) ||| Int64.ofNat (n % 16) = Int64.ofNat n := by
  decide

theorem halves (b : UInt8) : ∃ high low : Fin 16,
    (byteValue b >>> 4) &&& 15 = Int64.ofNat high ∧ byteValue b &&& 15 = Int64.ofNat low ∧
      (Int64.ofNat high <<< 4) ||| Int64.ofNat low = byteValue b := by
  have small : b.toNat < 256 := b.toNat_lt
  exact ⟨⟨b.toNat / 16, by omega⟩, ⟨b.toNat % 16, by omega⟩, halves_spec ⟨b.toNat, small⟩⟩

theorem Hex.decodeBytes_encode (s : CString) : Hex.decodeBytes (Hex.encode s) = s.map byteValue := by
  induction s with
  | nil => rfl
  | cons b s ih =>
      rcases halves b with ⟨high, low, isHigh, isLow, isByte⟩
      rcases Hex.digit_spec high with ⟨isHighDigit, isHighValue⟩
      rcases Hex.digit_spec low with ⟨isLowDigit, isLowValue⟩
      rw [Hex.encode, isHigh, isLow, isHighDigit, isLowDigit]
      simp only [List.cons_append, List.nil_append]
      rw [Hex.decodeBytes, isHighValue, isLowValue, isByte, ih, List.map_cons]

namespace Uri

/-- `Uri::isUnreserved`. -/
def isUnreserved (code : Int64) : Bool :=
  code ≥ 65 && code ≤ 90 || code ≥ 97 && code ≤ 122 || code ≥ 48 && code ≤ 57 ||
    (code = 45 || code = 95 || code = 46 || code = 126)

/-- `Uri::isReserved`. -/
def isReserved (code : Int64) : Bool :=
  code = 59 || code = 44 || code = 47 || code = 63 || code = 58 || code = 64 || code = 38 ||
    code = 61 || code = 43 || code = 36 || code = 35

/-- `Uri::hexDigit`. -/
def hexDigit (n : Int64) : CString :=
  if n < 10 then fromCharCode (n + 48) else fromCharCode (n + 55)

/-- `Uri::percentEncodeByte`. -/
def percentEncodeByte (code : Int64) : CString :=
  let hi := (code >>> 4) &&& 15
  let lo := code &&& 15
  literal "%" ++ hexDigit hi ++ hexDigit lo

/-- `Uri::hexValue`. -/
def hexValue (c : CString) : Int64 :=
  let code := charCodeAt c 0
  if code ≥ 48 && code ≤ 57 then code - 48
  else if code ≥ 65 && code ≤ 70 then code - 55
  else if code ≥ 97 && code ≤ 102 then code - 87
  else 0

/-- The loop of both encoders, which keep some characters as they are. -/
def encodeLoop (keeps : Int64 → Bool) : CString → CString
  | [] => []
  | b :: s =>
      let code := byteValue b
      (if keeps code then [b] else percentEncodeByte code) ++ encodeLoop keeps s

/-- `Uri::encodeComponent`. -/
def encodeComponent (s : CString) : CString :=
  encodeLoop isUnreserved s

/-- `Uri::encode`. -/
def encode (s : CString) : CString :=
  encodeLoop (fun code => isUnreserved code || isReserved code) s

/-- The loop of both decoders; a percent sign without two characters behind it stands for itself. -/
def decodeLoop : CString → List Int64
  | c :: h :: l :: s =>
      if c = '%'.toUInt8 then ((hexValue [h] <<< 4) ||| hexValue [l]) :: decodeLoop s
      else byteValue c :: decodeLoop (h :: l :: s)
  | c :: s => byteValue c :: decodeLoop s
  | [] => []

/-- `Uri::decodeComponent`. -/
def decodeComponent (s : CString) : CString :=
  tinoxBytesToString (decodeLoop s)

/-- `Uri::decode`. -/
def decode (s : CString) : CString :=
  tinoxBytesToString (decodeLoop s)

/-- The digit of a number below sixteen. -/
def digit (n : Nat) : UInt8 :=
  (literal "0123456789ABCDEF").getD n 0

theorem digit_spec : ∀ n : Fin 16, hexDigit (Int64.ofNat n) = [digit n] ∧
    hexValue [digit n] = Int64.ofNat n := by
  decide

theorem decodeLoop_cons {b : UInt8} (notPercent : b ≠ '%'.toUInt8) (s : CString) :
    decodeLoop (b :: s) = byteValue b :: decodeLoop s := by
  match s with
  | [] => rfl
  | [_] => rfl
  | h :: l :: s => rw [decodeLoop, if_neg notPercent]

/-- What an encoder writes is read back if it does not keep percent signs. -/
theorem decodeLoop_encodeLoop {keeps : Int64 → Bool} (notKept : keeps 37 = false) (s : CString) :
    decodeLoop (encodeLoop keeps s) = s.map byteValue := by
  induction s with
  | nil => rfl
  | cons b s ih =>
      rw [encodeLoop, List.map_cons]
      split
      next isKept =>
        have notPercent : b ≠ '%'.toUInt8 := by
          rintro rfl
          rw [show byteValue '%'.toUInt8 = 37 from rfl, notKept] at isKept
          contradiction
        rw [List.singleton_append, decodeLoop_cons notPercent, ih]
      next =>
        rcases halves b with ⟨high, low, isHigh, isLow, isByte⟩
        rcases digit_spec high with ⟨isHighDigit, isHighValue⟩
        rcases digit_spec low with ⟨isLowDigit, isLowValue⟩
        rw [percentEncodeByte, isHigh, isLow, isHighDigit, isLowDigit]
        change decodeLoop ('%'.toUInt8 :: digit high :: digit low :: encodeLoop keeps s) = _
        rw [decodeLoop, if_pos rfl, isHighValue, isLowValue, isByte, ih]

theorem tinoxBytesToString_byteValue {s : CString} (nulFree : NulFree s) :
    tinoxBytesToString (s.map byteValue) = s := by
  have isSame : lowByte ∘ byteValue = id := funext lowByte_byteValue
  rw [tinoxBytesToString, List.map_map, isSame, List.map_id]
  exact cString_eq_iff.mpr nulFree

end Uri

/-- All codecs read what they have written. -/
theorem codecs_inverse :
    (∀ data : List Int64, (∀ b ∈ data, bits b < 256) →
      Base64.decodeBytes (Base64.encodeBytes data) = data ∧
        Base64.decodeUrlBytes (Base64.encodeUrlBytes data) = data) ∧
    ∀ s : CString, NulFree s →
      Hex.decodeBytes (Hex.encode s) = s.map byteValue ∧
        Uri.decodeComponent (Uri.encodeComponent s) = s ∧ Uri.decode (Uri.encode s) = s := by
  constructor
  · intro data areBytes
    exact ⟨Base64.decodeBytes_encodeBytes data areBytes,
      Base64.decodeUrlBytes_encodeUrlBytes data areBytes⟩
  · intro s nulFree
    refine ⟨Hex.decodeBytes_encode s, ?_, ?_⟩
    · rw [Uri.decodeComponent, Uri.encodeComponent, Uri.decodeLoop_encodeLoop rfl,
        Uri.tinoxBytesToString_byteValue nulFree]
    · rw [Uri.decode, Uri.encode, Uri.decodeLoop_encodeLoop rfl,
        Uri.tinoxBytesToString_byteValue nulFree]

/-- Bytes with a zero among them, and a string of a percent sign and a space. -/
theorem codecs_inverse_zero :
    Base64.decodeBytes (Base64.encodeBytes [0, 255]) = [0, 255] ∧
      Uri.decode (Uri.encode [37, 32]) = [37, 32] := by
  have areBytes : ∀ b ∈ ([0, 255] : List Int64), bits b < 256 := by
    rw [List.forall_mem_cons, List.forall_mem_singleton]
    decide
  have nulFree : NulFree [37, 32] := by
    rw [NulFree]
    decide
  exact ⟨(codecs_inverse.1 [0, 255] areBytes).1, (codecs_inverse.2 [37, 32] nulFree).2.2⟩

end Tinox.Formats
