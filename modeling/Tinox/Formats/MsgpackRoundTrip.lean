import Tinox.Formats.Msgpack

/-!
# MessagePack values survive their encoding

The decoder reads a value as it was encoded, in front of any bytes, and it returns for all bytes.
-/

namespace Tinox.Formats.Msgpack

open Tinox.Net Tinox.Runtime Tinox.Amqp MsgpackReader

variable {F : Type} (runtime : MsgpackRuntime F)

variable {n len half : Nat}

theorem length_pushBE (v : Int64) (n : Nat) : (pushBE v n).length = n := by
  induction n with
  | zero => rfl
  | succ n ih => exact congrArg Nat.succ ih

theorem pushBE_eq (v : Int64) (inside : n ≤ 8) :
    pushBE v n = (BigEndian.digits n (bits v)).map Int64.ofNat := by
  induction n with
  | zero => rfl
  | succ n ih =>
      have isShift : ∀ k : Fin 8, ((Int64.ofNat (k * 8)).toBitVec.smod 64).toNat = 8 * k := by decide
      rw [pushBE, byteAt_eq v (isShift ⟨n, inside⟩) (Nat.le_of_lt_succ inside),
        ih (Nat.le_of_lt inside), BigEndian.digits, List.map_cons]

theorem readByte_cons (b : Int64) (bytes : List Int64) (pos : Nat) :
    MsgpackReader.readByte ⟨b :: bytes, pos, false⟩ = (b, ⟨bytes, pos + 1, false⟩) :=
  rfl

theorem readBELoop_bytes (data rest : List Int64) (result : Int64) (pos : Nat) :
    readBELoop data.length result ⟨data ++ rest, pos, false⟩ =
      (data.foldl (fun v byte : Int64 => (v <<< 8) ||| byte) result,
        ⟨rest, pos + data.length, false⟩) := by
  induction data generalizing result pos with
  | nil => rfl
  | cons b data ih =>
      rw [List.length_cons, List.cons_append, readBELoop, readByte_cons, ih, List.foldl_cons, Nat.add_assoc,
        Nat.add_comm 1]

theorem readBE_pushBE (v : Int64) (inside : n ≤ 8) (rest : List Int64) (pos : Nat) :
    readBE ⟨pushBE v n ++ rest, pos, false⟩ n =
      (Int64.ofNat (bits v % 256 ^ n), ⟨rest, pos + n, false⟩) := by
  have isNumber : BigEndian.number (bits 0) (BigEndian.digits n (bits v)) = bits v % 256 ^ n := by
    have isZero : bits 0 = 0 := rfl
    rw [BigEndian.number_digits, isZero, Nat.zero_mul, Nat.zero_add]
  have fits : bits v % 256 ^ n < 2 ^ 64 := Nat.lt_of_le_of_lt (Nat.mod_le _ _) v.toBitVec.isLt
  have read := readBELoop_bytes (pushBE v n) rest 0 pos
  have folded := @foldl_shifted (BigEndian.digits n (bits v)) (fun _ => BigEndian.digits_lt) 0
    (by rw [isNumber]; exact fits)
  rw [← pushBE_eq v inside, isNumber] at folded
  rwa [length_pushBE, folded] at read

theorem readBE_one (b : Int64) (rest : List Int64) (pos : Nat) :
    readBE ⟨b :: rest, pos, false⟩ 1 = (b, ⟨rest, pos + 1, false⟩) := by
  have isByte : (0 : Int64) <<< 8 ||| b = b := by
    have isZero : (0 : Int64) <<< 8 = 0 := rfl
    rw [isZero, Int64.zero_or]
  exact congrArg (fun v => (v, (⟨rest, pos + 1, false⟩ : MsgpackReader))) isByte

theorem readBE_eight (v : Int64) (rest : List Int64) (pos : Nat) :
    readBE ⟨pushBE v 8 ++ rest, pos, false⟩ 8 = (v, ⟨rest, pos + 8, false⟩) := by
  have below : bits v < 256 ^ 8 := v.toBitVec.isLt
  have isValue : Int64.ofNat (bits v) = v := bits_inj.mp (bits_ofNat below)
  rw [readBE_pushBE v (by decide), Nat.mod_eq_of_lt below, isValue]

theorem readBE_length (inside : n ≤ 7) (fits : len < 256 ^ n) (rest : List Int64) (pos : Nat) :
    readBE ⟨pushBE (Int64.ofNat len) n ++ rest, pos, false⟩ n =
      (Int64.ofNat len, ⟨rest, pos + n, false⟩) := by
  have small : len < 2 ^ 64 := by
    have below : 256 ^ n ≤ 256 ^ 7 := Nat.pow_le_pow_right (by decide) inside
    omega
  rw [readBE_pushBE _ (Nat.le_succ_of_le inside), bits_ofNat small, Nat.mod_eq_of_lt fits]

theorem readBytes_bytes (data rest : List Int64) (pos : Nat) :
    MsgpackReader.readBytes data.length ⟨data ++ rest, pos, false⟩ = (data, ⟨rest, pos + data.length, false⟩) := by
  induction data generalizing pos with
  | nil => rfl
  | cons b data ih =>
      rw [List.length_cons, List.cons_append, MsgpackReader.readBytes, readByte_cons]
      dsimp only
      rw [ih, Nat.add_assoc, Nat.add_comm 1]

theorem and_ne_zero_iff {x k : Nat} (isPower : half = 2 ^ k) (small : x < 2 * half) :
    x &&& half ≠ 0 ↔ half ≤ x := by
  rw [isPower, Nat.and_two_pow, Nat.testBit_eq_decide_div_mod_eq]
  rw [isPower] at small
  by_cases isSet : 2 ^ k ≤ x
  · have isOne : x / 2 ^ k = 1 := Nat.div_eq_of_lt_le (by omega) (by omega)
    rw [isOne]
    exact iff_of_true (by simp) isSet
  · rw [Nat.div_eq_of_lt (Nat.lt_of_not_le isSet)]
    exact iff_of_false (by simp) isSet

theorem signExtend_low {n : Int64} {byteWidth : Int64}
    (isSign : (1 : Int64) <<< (byteWidth * 8 - 1) = Int64.ofNat half)
    (isPower : half = 2 ^ 7 ∨ half = 2 ^ 15 ∨ half = 2 ^ 31) (inRange : Between (-half) half n) :
    signExtend byteWidth (Int64.ofNat (bits n % (2 * half))) = n := by
  have small : bits n % (2 * half) < 2 * half := Nat.mod_lt _ (by omega)
  have isTwice : Int64.ofNat half <<< 1 = Int64.ofNat (2 * half) := by
    rcases isPower with rfl | rfl | rfl <;> rfl
  have isSet : Int64.ofNat (bits n % (2 * half)) &&& Int64.ofNat half ≠ 0 ↔
      Int64.ofNat half ≤ Int64.ofNat (bits n % (2 * half)) := by
    rw [ofNat_le (by omega) (by omega), ne_eq, ← bits_inj, bits, Int64.toBitVec_and, BitVec.toNat_and]
    have isNumber : bits (Int64.ofNat (bits n % (2 * half))) = bits n % (2 * half) := bits_ofNat (by omega)
    have isHalf : bits (Int64.ofNat half) = half := bits_ofNat (by omega)
    rw [bits] at isNumber isHalf
    rw [isNumber, isHalf]
    rcases isPower with isPower | isPower | isPower
    all_goals exact and_ne_zero_iff isPower small
  rw [signExtend, isSign, isTwice, if_congr isSet rfl rfl]
  exact signed_eq isPower inRange

theorem decodeValue_tag (fuel : Nat) (tag : Int64) (bytes : List Int64) (pos : Nat) :
    decodeValue runtime (fuel + 1) ⟨tag :: bytes, pos, false⟩ =
      decodeTagged runtime (decodeValue runtime fuel) tag ⟨bytes, pos + 1, false⟩ :=
  rfl

theorem intResult_signed {n : Int64} {width : Nat} {byteWidth : Int64} {half : Nat}
    (inside : width ≤ 8) (isWhole : 256 ^ width = 2 * half)
    (isSign : (1 : Int64) <<< (byteWidth * 8 - 1) = Int64.ofNat half)
    (isPower : half = 2 ^ 7 ∨ half = 2 ^ 15 ∨ half = 2 ^ 31) (inRange : Between (-half) half n)
    (rest : List Int64) (pos : Nat) :
    (intResult (signExtend byteWidth (readBE ⟨pushBE n width ++ rest, pos, false⟩ width).1,
        (readBE ⟨pushBE n width ++ rest, pos, false⟩ width).2) : Decoded F) =
      some (.int n, ⟨rest, pos + width, false⟩) := by
  rw [readBE_pushBE n inside, isWhole, signExtend_low isSign isPower inRange]
  rfl

theorem decodeTagged_negative {n : Int64} (inRange : -32 ≤ n ∧ n < 0)
    (decodeItem : MsgpackReader → Decoded F) (r : MsgpackReader) :
    decodeTagged runtime decodeItem (n &&& 0xff) r = some (.int n, r) := by
  have isByte : n &&& 0xff = Int64.ofNat (bits n % (2 * 2 ^ 7)) := by
    apply bits_inj.mp
    rw [bits_and]
    exact (bits_ofNat (by omega)).symm
  have low : -32 ≤ n.toInt := Int64.le_iff_toInt_le.mp inRange.1
  have high : n.toInt < 0 := Int64.lt_iff_toInt_lt.mp inRange.2
  have isInt := toInt_eq n
  have below : bits n < 2 ^ 64 := n.toBitVec.isLt
  have isTag : 224 ≤ bits n % (2 * 2 ^ 7) := by
    split at isInt <;> omega
  have isLarge : 0xe0 ≤ Int64.ofNat (bits n % (2 * 2 ^ 7)) :=
    (@ofNat_le 224 _ (by decide) (by omega)).mpr isTag
  have isHalf : Int64.ofNat (2 ^ 7) ≤ Int64.ofNat (bits n % (2 * 2 ^ 7)) :=
    (ofNat_le (by omega) (by omega)).mpr (by omega)
  have notSmall : ¬ Int64.ofNat (bits n % (2 * 2 ^ 7)) ≤ 0x7f := fun isSmall =>
    absurd ((@ofNat_le _ 127 (by omega) (by decide)).mp isSmall) (by omega)
  have isNumber := @signed_eq n (2 ^ 7) (Or.inl rfl) ⟨by omega, by omega⟩
  rw [if_pos isHalf] at isNumber
  have isValue : Int64.ofNat (bits n % (2 * 2 ^ 7)) - 256 = n := isNumber
  rw [isByte, decodeTagged, if_neg notSmall, if_pos isLarge, isValue]

theorem between_of_le {n low high : Int64} (inRange : low ≤ n ∧ n ≤ high)
    (isLow : low.toInt = -half) (isHigh : high.toInt + 1 = half) : Between (-half) half n := by
  have isLeast : low.toInt ≤ n.toInt := Int64.le_iff_toInt_le.mp inRange.1
  have isGreatest : n.toInt ≤ high.toInt := Int64.le_iff_toInt_le.mp inRange.2
  exact ⟨by omega, by omega⟩

theorem decodeValue_encodeInt (n : Int64) (fuel : Nat) (rest : List Int64) (pos : Nat) :
    decodeValue runtime (fuel + 1) ⟨encodeInt n ++ rest, pos, false⟩ =
      some (.int n, ⟨rest, pos + (encodeInt n).length, false⟩) := by
  have isPush : [n &&& 0xff] = pushBE n 1 := by
    rw [low_eq, pushBE_eq n (by decide)]
    rfl
  rw [encodeInt]
  split
  next isSmall =>
    rw [List.singleton_append, decodeValue_tag, decodeTagged, if_pos isSmall.2]
    rfl
  next =>
  split
  next isNegative =>
    rw [List.singleton_append, decodeValue_tag, decodeTagged_negative runtime isNegative]
    rfl
  next =>
  split
  next inRange =>
    rw [isPush, List.cons_append, decodeValue_tag]
    exact @intResult_signed F n 1 1 (2 ^ 7) (by decide) rfl rfl (Or.inl rfl)
      (between_of_le inRange rfl rfl) rest (pos + 1)
  next =>
  split
  next inRange =>
    rw [List.cons_append, decodeValue_tag]
    exact @intResult_signed F n 2 2 (2 ^ 15) (by decide) rfl rfl (Or.inr (Or.inl rfl))
      (between_of_le inRange rfl rfl) rest (pos + 1)
  next =>
  split
  next inRange =>
    rw [List.cons_append, decodeValue_tag]
    exact @intResult_signed F n 4 4 (2 ^ 31) (by decide) rfl rfl (Or.inr (Or.inr rfl))
      (between_of_le inRange rfl rfl) rest (pos + 1)
  next =>
    have isRead := congrArg (fun read => (intResult read : Decoded F)) (readBE_eight n rest (pos + 1))
    rw [List.cons_append, decodeValue_tag]
    exact isRead

theorem decodeValue_encodeFloat (f : F) (fuel : Nat) (rest : List Int64) (pos : Nat) :
    decodeValue runtime (fuel + 1) ⟨encodeFloat runtime f ++ rest, pos, false⟩ =
      some (.float f, ⟨rest, pos + (encodeFloat runtime f).length, false⟩) := by
  have isRead := readBE_eight (runtime.msgpackFloat64ToBits f) rest (pos + 1)
  have isFloat : floatResult runtime.msgpackBitsToFloat64
      (runtime.msgpackFloat64ToBits f, ⟨rest, pos + 1 + 8, false⟩) =
        some (.float f, ⟨rest, pos + 1 + 8, false⟩) := by
    rw [floatResult]
    dsimp only
    rw [if_neg Bool.false_ne_true, runtime.bitsToFloat_toBits]
  rw [encodeFloat, List.cons_append, decodeValue_tag]
  exact (congrArg _ isRead).trans isFloat

theorem decodeValue_stringHeader (fits : len < 2 ^ 32) (fuel : Nat) (bytes : List Int64) (pos : Nat) :
    decodeValue runtime (fuel + 1) ⟨stringHeader (Int64.ofNat len) ++ bytes, pos, false⟩ =
      decodeString ⟨bytes, pos + (stringHeader (Int64.ofNat len)).length, false⟩ (Int64.ofNat len) := by
  rw [stringHeader]
  split
  next isFixed =>
    have isLess : len < 32 := (@ofNat_lt len 32 (by omega) (by decide)).mp isFixed
    have isTag : ∀ n : Fin 32, let tag := 0xa0 ||| Int64.ofNat n
        ¬ tag ≤ 0x7f ∧ ¬ 0xe0 ≤ tag ∧ ¬ (0x80 ≤ tag ∧ tag ≤ 0x8f) ∧ ¬ (0x90 ≤ tag ∧ tag ≤ 0x9f) ∧
          (0xa0 ≤ tag ∧ tag ≤ 0xbf) ∧ tag &&& 0x1f = Int64.ofNat n := by decide
    rcases isTag ⟨len, isLess⟩ with ⟨notInt, notNegative, notMap, notArray, isString, isLength⟩
    rw [List.singleton_append, decodeValue_tag, decodeTagged, if_neg notInt, if_neg notNegative,
      if_neg notMap, if_neg notArray, if_pos isString, isLength]
    rfl
  next =>
  split
  next isByte =>
    have isRead := readBE_one (Int64.ofNat len) bytes (pos + 1)
    rw [List.cons_append, decodeValue_tag]
    exact congrArg (fun read : Int64 × MsgpackReader => (decodeString read.2 read.1 : Decoded F)) isRead
  next =>
  split
  next isShort =>
    have isLess : len < 256 ^ 2 :=
      Nat.lt_succ_of_le ((@ofNat_le len 65535 (by omega) (by decide)).mp isShort)
    have isRead := readBE_length (by decide) isLess bytes (pos + 1)
    rw [List.cons_append, decodeValue_tag]
    exact congrArg (fun read : Int64 × MsgpackReader => (decodeString read.2 read.1 : Decoded F)) isRead
  next =>
    have isRead := readBE_length (by decide : 4 ≤ 7) fits bytes (pos + 1)
    rw [List.cons_append, decodeValue_tag]
    exact congrArg (fun read : Int64 × MsgpackReader => (decodeString read.2 read.1 : Decoded F)) isRead

theorem decodeValue_countHeader {fix wide wider : Int64}
    {decode : (MsgpackReader → Decoded F) → MsgpackReader → Int64 → Decoded F}
    (isFixed : ∀ (n : Fin 16) (decodeItem : MsgpackReader → Decoded F) (r : MsgpackReader), decodeTagged runtime decodeItem (fix ||| Int64.ofNat n) r = decode decodeItem r (Int64.ofNat n))
    (isWide : ∀ (decodeItem : MsgpackReader → Decoded F) (r : MsgpackReader), decodeTagged runtime decodeItem wide r = decode decodeItem (r.readBE 2).2 (r.readBE 2).1)
    (isWider : ∀ (decodeItem : MsgpackReader → Decoded F) (r : MsgpackReader), decodeTagged runtime decodeItem wider r = decode decodeItem (r.readBE 4).2 (r.readBE 4).1)
    (fits : len < 2 ^ 32) (fuel : Nat) (bytes : List Int64) (pos : Nat) :
    decodeValue runtime (fuel + 1)
        ⟨countHeader fix wide wider (Int64.ofNat len) ++ bytes, pos, false⟩ =
      decode (decodeValue runtime fuel)
        ⟨bytes, pos + (countHeader fix wide wider (Int64.ofNat len)).length, false⟩
        (Int64.ofNat len) := by
  rw [countHeader]
  split
  next isLess =>
    have inFour : len < 16 := (@ofNat_lt len 16 (by omega) (by decide)).mp isLess
    rw [List.singleton_append, decodeValue_tag, isFixed ⟨len, inFour⟩]
    rfl
  next =>
  split
  next isShort =>
    have isLess : len < 256 ^ 2 :=
      Nat.lt_succ_of_le ((@ofNat_le len 65535 (by omega) (by decide)).mp isShort)
    rw [List.cons_append, decodeValue_tag, isWide, readBE_length (by decide) isLess, List.length_cons,
      length_pushBE, Nat.add_assoc]
  next =>
    rw [List.cons_append, decodeValue_tag, isWider, readBE_length (by decide : 4 ≤ 7) fits,
      List.length_cons, length_pushBE, Nat.add_assoc]

theorem decodeTagged_fixedArray (n : Fin 16) (decodeItem : MsgpackReader → Decoded F)
    (r : MsgpackReader) : decodeTagged runtime decodeItem (0x90 ||| Int64.ofNat n) r =
      decodeArray decodeItem r (Int64.ofNat n) := by
  have isTag : ∀ n : Fin 16, let tag := 0x90 ||| Int64.ofNat n
      ¬ tag ≤ 0x7f ∧ ¬ 0xe0 ≤ tag ∧ ¬ (0x80 ≤ tag ∧ tag ≤ 0x8f) ∧ (0x90 ≤ tag ∧ tag ≤ 0x9f) ∧
        tag &&& 0x0f = Int64.ofNat n := by decide
  rcases isTag n with ⟨notInt, notNegative, notMap, isArray, isLength⟩
  rw [decodeTagged, if_neg notInt, if_neg notNegative, if_neg notMap, if_pos isArray, isLength]

theorem decodeTagged_fixedMap (n : Fin 16) (decodeItem : MsgpackReader → Decoded F)
    (r : MsgpackReader) : decodeTagged runtime decodeItem (0x80 ||| Int64.ofNat n) r =
      decodeMap decodeItem r (Int64.ofNat n) := by
  have isTag : ∀ n : Fin 16, let tag := 0x80 ||| Int64.ofNat n
      ¬ tag ≤ 0x7f ∧ ¬ 0xe0 ≤ tag ∧ (0x80 ≤ tag ∧ tag ≤ 0x8f) ∧ tag &&& 0x0f = Int64.ofNat n := by
    decide
  rcases isTag n with ⟨notInt, notNegative, isMap, isLength⟩
  rw [decodeTagged, if_neg notInt, if_neg notNegative, if_pos isMap, isLength]

theorem decodeValue_arrayHeader (fits : len < 2 ^ 32) (fuel : Nat) (bytes : List Int64) (pos : Nat) :
    decodeValue runtime (fuel + 1)
        ⟨countHeader 0x90 0xdc 0xdd (Int64.ofNat len) ++ bytes, pos, false⟩ =
      decodeArray (decodeValue runtime fuel)
        ⟨bytes, pos + (countHeader 0x90 0xdc 0xdd (Int64.ofNat len)).length, false⟩ (Int64.ofNat len) :=
  decodeValue_countHeader runtime (decodeTagged_fixedArray runtime) (fun _ _ => rfl)
    (fun _ _ => rfl) fits fuel bytes pos

theorem decodeValue_mapHeader (fits : len < 2 ^ 32) (fuel : Nat) (bytes : List Int64) (pos : Nat) :
    decodeValue runtime (fuel + 1)
        ⟨countHeader 0x80 0xde 0xdf (Int64.ofNat len) ++ bytes, pos, false⟩ =
      decodeMap (decodeValue runtime fuel)
        ⟨bytes, pos + (countHeader 0x80 0xde 0xdf (Int64.ofNat len)).length, false⟩ (Int64.ofNat len) :=
  decodeValue_countHeader runtime (decodeTagged_fixedMap runtime) (fun _ _ => rfl)
    (fun _ _ => rfl) fits fuel bytes pos

theorem not_rejects (fits : len < 2 ^ 32) {bytes : List Int64} (enough : len ≤ bytes.length)
    (pos : Nat) : ¬ Rejects ⟨bytes, pos, false⟩ (Int64.ofNat len) := by
  have isInt : (Int64.ofNat len).toInt = len := Int64.toInt_ofNat_of_lt (by omega)
  rintro (hasFailed | isNegative | isMore)
  · exact Bool.false_ne_true hasFailed
  · have isLess : (Int64.ofNat len).toInt < 0 := Int64.lt_iff_toInt_lt.mp isNegative
    omega
  · rw [isInt, remaining] at isMore
    exact absurd (Int.ofNat_lt.mp isMore) (Nat.not_lt.mpr enough)

theorem toNat_length (fits : len < 2 ^ 32) : (Int64.ofNat len).toInt.toNat = len := by
  rw [Int64.toInt_ofNat_of_lt (by omega), Int.toNat_natCast]

/-- A string that is encoded as it is: without zero bytes, of a length of 32 bits. -/
def IsText (s : CString) : Prop :=
  0 ∉ s ∧ s.length < 2 ^ 32

/-- Bytes that are decoded, in front of any others, to a value; the fuel of their length is enough. -/
def Decodes (bytes : List Int64) (value : MsgpackValue F) : Prop :=
  ∀ (fuel : Nat) (rest : List Int64) (pos : Nat), bytes.length ≤ fuel →
    decodeValue runtime (fuel + 1) ⟨bytes ++ rest, pos, false⟩ =
      some (value, ⟨rest, pos + bytes.length, false⟩)

theorem decodes_encodeString {s : CString} (isText : IsText s) :
    Decodes runtime (encodeString s) (.string s) := by
  intro fuel rest pos _
  rcases isText with ⟨noZero, fits⟩
  have isLength : (s.map byteValue).length = s.length := List.length_map _
  have read := readBytes_bytes (s.map byteValue) rest (pos + (stringHeader (Int64.ofNat s.length)).length)
  rw [isLength] at read
  rw [encodeString, map_charCodeAt, List.append_assoc, decodeValue_stringHeader runtime fits,
    decodeString, if_neg (not_rejects fits (by rw [List.length_append, isLength]; omega) _),
    toNat_length fits]
  dsimp only
  rw [read, tinoxBytesToString_bytes noZero, List.length_append, isLength, Nat.add_assoc]

variable {runtime}

variable {items : List (List Int64)} {fuel : Nat}

theorem Decodes.ne_nil {bytes : List Int64} {value : MsgpackValue F}
    (isDecoded : Decodes runtime bytes value) : bytes ≠ [] := by
  rintro rfl
  have isFailed := isDecoded 0 [] 0 (Nat.le_refl 0)
  have isNull : decodeValue runtime 1 ⟨[], 0, false⟩ = some (.null, ⟨[], 0, true⟩) := rfl
  rw [List.append_nil, isNull] at isFailed
  cases isFailed

theorem length_le_flatten (someBytes : ∀ item ∈ items, item ≠ []) :
    items.length ≤ items.flatten.length := by
  induction items with
  | nil => exact Nat.le_refl 0
  | cons item items ih =>
      rw [List.forall_mem_cons] at someBytes
      have isSome := List.length_pos_of_ne_nil someBytes.1
      have isLater := ih someBytes.2
      rw [List.length_cons, List.flatten_cons, List.length_append]
      omega

theorem length_countHeader_pos (fix wide wider len : Int64) :
    0 < (countHeader fix wide wider len).length := by
  rw [countHeader]
  split
  · exact Nat.succ_pos _
  · split <;> exact Nat.succ_pos _

theorem decodeItems_succ {item : List Int64} {value : MsgpackValue F}
    (isDecoded : Decodes runtime item value) (enough : item.length < fuel) (n : Nat)
    (before : List (MsgpackValue F)) (rest : List Int64) (pos : Nat) :
    decodeItems (decodeValue runtime fuel) (n + 1) before ⟨item ++ rest, pos, false⟩ =
      decodeItems (decodeValue runtime fuel) n (before ++ [value])
        ⟨rest, pos + item.length, false⟩ := by
  rcases Nat.exists_eq_succ_of_ne_zero (Nat.ne_of_gt (Nat.zero_lt_of_lt enough)) with ⟨more, rfl⟩
  rw [decodeItems, if_neg Bool.false_ne_true, isDecoded more _ _ (Nat.le_of_lt_succ enough),
    Option.bind_some]

theorem decodeItems_flatten {values : List (MsgpackValue F)}
    (each : List.Forall₂ (Decodes runtime) items values) (enough : items.flatten.length < fuel)
    (before : List (MsgpackValue F)) (rest : List Int64) (pos : Nat) :
    decodeItems (decodeValue runtime fuel) items.length before ⟨items.flatten ++ rest, pos, false⟩ =
      some (.array (before ++ values), ⟨rest, pos + items.flatten.length, false⟩) := by
  induction each generalizing before pos with
  | nil =>
      rw [List.append_nil]
      rfl
  | @cons item value items values isDecoded _ ih =>
      rw [List.flatten_cons, List.length_append] at enough
      rw [List.length_cons, List.flatten_cons, List.append_assoc, decodeItems_succ isDecoded (by omega),
        ih (by omega), List.append_assoc, List.singleton_append, List.length_append, Nat.add_assoc]

theorem decodes_encodeArray {values : List (MsgpackValue F)} (fits : items.length < 2 ^ 32)
    (each : List.Forall₂ (Decodes runtime) items values) :
    Decodes runtime (encodeArray items) (.array values) := by
  intro fuel rest pos enough
  have withBytes := each.imp fun _ _ isDecoded => And.intro isDecoded.ne_nil isDecoded
  have someBytes := ((List.forall₂_and_left items values).mp withBytes).1
  have isThere := length_le_flatten someBytes
  have someHeader := length_countHeader_pos 0x90 0xdc 0xdd (Int64.ofNat items.length)
  rw [encodeArray, List.length_append] at enough
  rw [encodeArray, List.append_assoc, decodeValue_arrayHeader runtime fits, decodeArray,
    if_neg (not_rejects fits (by rw [List.length_append]; omega) _), toNat_length fits,
    decodeItems_flatten each (by omega), List.nil_append, List.length_append, Nat.add_assoc]

theorem decodeEntries_succ {code value : List Int64} {key : CString} {decoded : MsgpackValue F}
    (isKey : Decodes runtime code (.string key)) (isValue : Decodes runtime value decoded)
    (enough : code.length + value.length < fuel) (n : Nat)
    (before : List (CString × MsgpackValue F)) (rest : List Int64) (pos : Nat) :
    decodeEntries (decodeValue runtime fuel) (n + 1) before ⟨code ++ (value ++ rest), pos, false⟩ =
      decodeEntries (decodeValue runtime fuel) n (Entries.put before key decoded)
        ⟨rest, pos + (code.length + value.length), false⟩ := by
  rcases Nat.exists_eq_succ_of_ne_zero (Nat.ne_of_gt (Nat.zero_lt_of_lt enough)) with ⟨more, rfl⟩
  rw [decodeEntries, if_neg Bool.false_ne_true, isKey more _ _ (by omega), Option.bind_some,
    isValue more _ _ (by omega), Option.bind_some, Nat.add_assoc]

theorem decodeEntries_flatMap {keys : List CString} {code : CString → List Int64}
    {value : CString → MsgpackValue F} (areTexts : ∀ key ∈ keys, IsText key)
    (each : ∀ key ∈ keys, Decodes runtime (code key) (value key))
    (enough : (keys.flatMap fun key => encodeString key ++ code key).length < fuel)
    (before : List (CString × MsgpackValue F)) (rest : List Int64) (pos : Nat) :
    decodeEntries (decodeValue runtime fuel) keys.length before
        ⟨(keys.flatMap fun key => encodeString key ++ code key) ++ rest, pos, false⟩ =
      some (.object (Entries.putAll before (keys.map fun key => (key, value key))),
        ⟨rest, pos + (keys.flatMap fun key => encodeString key ++ code key).length, false⟩) := by
  induction keys generalizing before pos with
  | nil => rfl
  | cons key keys ih =>
      rw [List.forall_mem_cons] at areTexts each
      rw [List.flatMap_cons, List.length_append, List.length_append] at enough
      have isKey := decodes_encodeString runtime areTexts.1
      rw [List.length_cons, List.flatMap_cons, List.append_assoc, List.append_assoc,
        decodeEntries_succ isKey each.1 (by omega), ih areTexts.2 each.2 (by omega),
        List.length_append, List.length_append, Nat.add_assoc]
      rfl

theorem lookup_decoded {m : List (CString × List Int64)} {values : List (CString × MsgpackValue F)}
    (each : List.Forall₂ (fun coded decoded => coded.1 = decoded.1 ∧ Decodes runtime coded.2 decoded.2)
      m values) (key : CString) :
    (key ∈ m.map Prod.fst ∧ ∃ bytes value, m.lookup key = some bytes ∧ values.lookup key = some value ∧
      Decodes runtime bytes value) ∨ key ∉ m.map Prod.fst ∧ values.lookup key = none := by
  have isRelated := Entries.lookup_related each key
  by_cases member : key ∈ m.map Prod.fst
  · rcases Option.ne_none_iff_exists'.mp (fun isNone => Entries.lookup_eq_none.mp isNone member) with
      ⟨bytes, isCode⟩
    rw [isCode] at isRelated
    generalize isValue : values.lookup key = value at isRelated
    cases isRelated with
    | some isDecoded => exact Or.inl ⟨member, _, _, isCode, rfl, isDecoded⟩
  · rw [Entries.lookup_eq_none.mpr member] at isRelated
    generalize isValue : values.lookup key = value at isRelated
    cases isRelated with
    | none => exact Or.inr ⟨member, rfl⟩

theorem decodes_encodeMap {m : List (CString × List Int64)} {values : List (CString × MsgpackValue F)}
    (fits : m.length < 2 ^ 32) (distinct : (m.map Prod.fst).Nodup)
    (areTexts : ∀ key ∈ m.map Prod.fst, IsText key)
    (each : List.Forall₂ (fun coded decoded => coded.1 = decoded.1 ∧ Decodes runtime coded.2 decoded.2)
      m values) :
    ∃ entries, Decodes runtime (encodeMap runtime m) (.object entries) ∧
      ∀ key, entries.lookup key = values.lookup key := by
  have isPerm := runtime.keys_perm (m.map Prod.fst)
  have isMap : encodeMap runtime m =
      countHeader 0x80 0xde 0xdf (Int64.ofNat (runtime.keys (m.map Prod.fst)).length) ++
        (runtime.keys (m.map Prod.fst)).flatMap fun key =>
          encodeString key ++ (m.lookup key).getD [] := rfl
  generalize runtime.keys (m.map Prod.fst) = keys at isPerm isMap
  have isLength : keys.length = m.length := by rw [isPerm.length_eq, List.length_map]
  refine ⟨keys.map fun key => (key, (values.lookup key).getD .null), ?_, ?_⟩
  · intro fuel rest pos enough
    have keyTexts : ∀ key ∈ keys, IsText key := fun key member =>
      areTexts key (isPerm.mem_iff.mp member)
    have decoded : ∀ key ∈ keys,
        Decodes runtime ((m.lookup key).getD []) ((values.lookup key).getD .null) := by
      intro key member
      rcases lookup_decoded each key with ⟨_, bytes, value, isCode, isValue, isDecoded⟩ | ⟨notKey, _⟩
      · rw [isCode, isValue]
        exact isDecoded
      · exact absurd (isPerm.mem_iff.mp member) notKey
    have someBytes : ∀ item ∈ keys.map fun key => encodeString key ++ (m.lookup key).getD [],
        item ≠ [] := by
      intro item member
      rcases List.mem_map.mp member with ⟨key, isKey, rfl⟩
      exact List.append_ne_nil_of_left_ne_nil
        (decodes_encodeString runtime (keyTexts key isKey)).ne_nil _
    have isThere := length_le_flatten someBytes
    rw [List.length_map, ← List.flatMap_def] at isThere
    have someHeader := length_countHeader_pos 0x80 0xde 0xdf (Int64.ofNat keys.length)
    have isStored : Entries.putAll [] (keys.map fun key => (key, (values.lookup key).getD .null)) =
        keys.map fun key => (key, (values.lookup key).getD .null) := by
      apply Entries.putAll_of_nodup
      rw [List.nil_append, List.map_map]
      have areKeys : keys.map (Prod.fst ∘ fun key => (key, (values.lookup key).getD .null)) = keys :=
        List.map_id keys
      rw [areKeys]
      exact isPerm.nodup_iff.mpr distinct
    rw [isMap, List.length_append] at enough
    rw [isMap, List.append_assoc, decodeValue_mapHeader runtime (isLength ▸ fits), decodeMap,
      if_neg (not_rejects (isLength ▸ fits) (by rw [List.length_append]; omega) _),
      toNat_length (isLength ▸ fits), decodeEntries_flatMap keyTexts decoded (by omega), isStored,
      List.length_append, Nat.add_assoc]
  · intro key
    rw [Entries.lookup_map]
    rcases lookup_decoded each key with ⟨isKey, bytes, value, _, isValue, _⟩ | ⟨notKey, isNone⟩
    · rw [if_pos (List.contains_iff_mem.mpr (isPerm.mem_iff.mpr isKey)), isValue, Option.getD_some]
    · have notListed : ¬ keys.contains key = true := fun isListed =>
        notKey (isPerm.mem_iff.mp (List.contains_iff_mem.mp isListed))
      rw [if_neg notListed, isNone]

/-- Values of the same kind with the same field; maps are compared as functions of the keys. -/
inductive Same : MsgpackValue F → MsgpackValue F → Prop where
  | null : Same .null .null
  | bool (b : Bool) : Same (.bool b) (.bool b)
  | int (n : Int64) : Same (.int n) (.int n)
  | float (f : F) : Same (.float f) (.float f)
  | string (s : CString) : Same (.string s) (.string s)
  | array {items others : List (MsgpackValue F)} (each : List.Forall₂ Same items others) :
      Same (.array items) (.array others)
  | object {m other : List (CString × MsgpackValue F)}
      (each : ∀ key, Option.Rel Same (m.lookup key) (other.lookup key)) : Same (.object m) (.object other)

mutual

/-- Texts have no zero bytes, lengths and counts have 32 bits, and the keys of a map are distinct. -/
def Fits : MsgpackValue F → Prop
  | .string s => IsText s
  | .array items => items.length < 2 ^ 32 ∧ FitsItems items
  | .object entries => entries.length < 2 ^ 32 ∧ (entries.map Prod.fst).Nodup ∧ FitsEntries entries
  | _ => True

def FitsItems : List (MsgpackValue F) → Prop
  | [] => True
  | item :: items => Fits item ∧ FitsItems items

def FitsEntries : List (CString × MsgpackValue F) → Prop
  | [] => True
  | (key, value) :: entries => IsText key ∧ Fits value ∧ FitsEntries entries

end

theorem length_encodeItems (items : List (MsgpackValue F)) :
    (encodeItems runtime items).length = items.length := by
  induction items with
  | nil =>
      rw [encodeItems]
      rfl
  | cons item items ih => rw [encodeItems, List.length_cons, ih, List.length_cons]

theorem keys_encodeEntries (entries : List (CString × MsgpackValue F)) :
    (encodeEntries runtime entries).map Prod.fst = entries.map Prod.fst := by
  induction entries with
  | nil => rw [encodeEntries, List.map_nil, List.map_nil]
  | cons entry entries ih => rw [encodeEntries, List.map_cons, ih, List.map_cons]

theorem isText_of_fitsEntries {entries : List (CString × MsgpackValue F)} (fits : FitsEntries entries) :
    ∀ key ∈ entries.map Prod.fst, IsText key := by
  induction entries with
  | nil => nofun
  | cons entry entries ih =>
      rw [FitsEntries] at fits
      rw [List.map_cons, List.forall_mem_cons]
      exact ⟨fits.1, ih fits.2.2⟩

variable (runtime)

mutual

theorem decodes_encodeInto : ∀ v : MsgpackValue F, Fits v →
    ∃ decoded, Same decoded v ∧ Decodes runtime (encodeInto runtime v) decoded
  | .null, _ => ⟨.null, .null, fun _ _ _ _ => rfl⟩
  | .bool true, _ => ⟨.bool true, .bool true, fun _ _ _ _ => rfl⟩
  | .bool false, _ => ⟨.bool false, .bool false, fun _ _ _ _ => rfl⟩
  | .int n, _ => ⟨.int n, .int n, fun fuel rest pos _ => decodeValue_encodeInt runtime n fuel rest pos⟩
  | .float f, _ =>
      ⟨.float f, .float f, fun fuel rest pos _ => decodeValue_encodeFloat runtime f fuel rest pos⟩
  | .string s, fits => ⟨.string s, .string s, decodes_encodeString runtime fits⟩
  | .array items, fits => by
      rcases decodes_encodeItems items fits.2 with ⟨values, same, each⟩
      exact ⟨.array values, .array same,
        decodes_encodeArray (by rw [length_encodeItems]; exact fits.1) each⟩
  | .object entries, fits => by
      rcases fits with ⟨short, distinct, fits⟩
      rcases decodes_encodeEntries entries fits with ⟨values, same, each⟩
      have areKeys : (encodeEntries runtime entries).map Prod.fst = entries.map Prod.fst :=
        keys_encodeEntries entries
      have isLength := congrArg List.length areKeys
      rw [List.length_map, List.length_map] at isLength
      rcases decodes_encodeMap (isLength ▸ short) (areKeys ▸ distinct)
        (areKeys ▸ isText_of_fitsEntries fits) each with ⟨decoded, isDecoded, isFound⟩
      refine ⟨.object decoded, .object fun key => ?_, isDecoded⟩
      rw [isFound]
      exact Entries.lookup_related same key

theorem decodes_encodeItems : ∀ items : List (MsgpackValue F), FitsItems items →
    ∃ values, List.Forall₂ Same values items ∧
      List.Forall₂ (Decodes runtime) (encodeItems runtime items) values
  | [], _ => ⟨[], .nil, .nil⟩
  | item :: items, fits => by
      rcases decodes_encodeInto item fits.1 with ⟨value, same, isDecoded⟩
      rcases decodes_encodeItems items fits.2 with ⟨values, areSame, each⟩
      exact ⟨value :: values, .cons same areSame, .cons isDecoded each⟩

theorem decodes_encodeEntries : ∀ entries : List (CString × MsgpackValue F), FitsEntries entries →
    ∃ values : List (CString × MsgpackValue F),
      List.Forall₂ (fun decoded entry => decoded.1 = entry.1 ∧ Same decoded.2 entry.2) values entries ∧
      List.Forall₂ (fun coded decoded => coded.1 = decoded.1 ∧ Decodes runtime coded.2 decoded.2)
        (encodeEntries runtime entries) values
  | [], _ => ⟨[], .nil, .nil⟩
  | (key, value) :: entries, fits => by
      rcases decodes_encodeInto value fits.2.1 with ⟨decoded, same, isDecoded⟩
      rcases decodes_encodeEntries entries fits.2.2 with ⟨values, areSame, each⟩
      exact ⟨(key, decoded) :: values, .cons ⟨rfl, same⟩ areSame, .cons ⟨rfl, isDecoded⟩ each⟩

end

/-- `Msgpack::decode` undoes `Msgpack::encode`, and it reads exactly the bytes that were encoded,
whatever is behind them. -/
theorem decode_undoes_encode (v : MsgpackValue F) (fits : Fits v) :
    ∃ decoded, Same decoded v ∧ decode runtime (encode runtime v) = some decoded ∧
      ∀ rest, decodeReader runtime (encode runtime v ++ rest) =
        some (decoded, ⟨rest, (encode runtime v).length, false⟩) := by
  rcases decodes_encodeInto runtime v fits with ⟨decoded, same, isDecoded⟩
  have isRead : ∀ rest, decodeReader runtime (encode runtime v ++ rest) =
      some (decoded, ⟨rest, (encode runtime v).length, false⟩) := by
    intro rest
    have read := isDecoded (encode runtime v ++ rest).length rest 0
      (by rw [List.length_append]; exact Nat.le_add_right _ _)
    rwa [Nat.zero_add] at read
  refine ⟨decoded, same, ?_, isRead⟩
  have isWhole := isRead []
  rw [List.append_nil] at isWhole
  rw [decode, isWhole, Option.map_some]

theorem decode_undoes_encode_nested :
    let runtime : MsgpackRuntime Int64 := ⟨id, id, id, List.reverse, fun _ => rfl, List.reverse_perm⟩
    let v : MsgpackValue Int64 :=
      .object [([97], .array [.int (-33), .float 1, .null]), ([98], .string [104, 105])]
    ∃ decoded, Same decoded v ∧ decode runtime (encode runtime v) = some decoded ∧
      ∀ rest, decodeReader runtime (encode runtime v ++ rest) =
        some (decoded, ⟨rest, (encode runtime v).length, false⟩) := by
  have isText : ∀ b : UInt8, b ≠ 0 → IsText [b] := fun b notZero =>
    ⟨fun isZero => notZero (List.mem_singleton.mp isZero).symm, (by decide : 1 < 2 ^ 32)⟩
  apply decode_undoes_encode
  refine ⟨(by decide : 2 < 2 ^ 32), by decide, isText 97 (by decide), ?_, isText 98 (by decide), ?_, trivial⟩
  · exact ⟨(by decide : 3 < 2 ^ 32), trivial, trivial, trivial, trivial⟩
  · exact ⟨by decide, (by decide : 2 < 2 ^ 32)⟩

/-- A read that returns, with no more bytes to come than before it. -/
def Returns (r : MsgpackReader) (read : Decoded F) : Prop :=
  ∃ value after, read = some (value, after) ∧ after.remaining ≤ r.remaining

variable {r : MsgpackReader}

theorem remaining_readByte (r : MsgpackReader) :
    (MsgpackReader.readByte r).2.failed = true ∧ (MsgpackReader.readByte r).2.remaining = r.remaining ∨
      (MsgpackReader.readByte r).2.remaining < r.remaining := by
  rcases r with ⟨bytes, pos, failed⟩
  cases failed with
  | true => exact Or.inl ⟨rfl, rfl⟩
  | false =>
      cases bytes with
      | nil => exact Or.inl ⟨rfl, rfl⟩
      | cons b bytes => exact Or.inr (Nat.lt_succ_self bytes.length)

theorem remaining_readByte_le (r : MsgpackReader) :
    (MsgpackReader.readByte r).2.remaining ≤ r.remaining := by
  rcases remaining_readByte r with ⟨_, same⟩ | less
  · exact Nat.le_of_eq same
  · exact Nat.le_of_lt less

theorem remaining_readBELoop_le (n : Nat) (result : Int64) (r : MsgpackReader) :
    (readBELoop n result r).2.remaining ≤ r.remaining := by
  induction n generalizing result r with
  | zero => exact Nat.le_refl _
  | succ n ih => exact Nat.le_trans (ih _ _) (remaining_readByte_le r)

theorem remaining_readBytes_le (n : Nat) (r : MsgpackReader) :
    (MsgpackReader.readBytes n r).2.remaining ≤ r.remaining := by
  induction n generalizing r with
  | zero => exact Nat.le_refl _
  | succ n ih => exact Nat.le_trans (ih _) (remaining_readByte_le r)

theorem returns_some {after : MsgpackReader} (value : MsgpackValue F)
    (within : after.remaining ≤ r.remaining) : Returns r (some (value, after)) :=
  ⟨value, after, rfl, within⟩

theorem Returns.trans {before : MsgpackReader} {read : Decoded F} (returns : Returns before read)
    (within : before.remaining ≤ r.remaining) : Returns r read := by
  rcases returns with ⟨value, after, isRead, less⟩
  exact ⟨value, after, isRead, Nat.le_trans less within⟩

theorem returns_ite {condition : Prop} [Decidable condition] {read other : Decoded F}
    (returns : Returns r read) (returnsOther : Returns r other) :
    Returns r (if condition then read else other) := by
  split
  · exact returns
  · exact returnsOther

theorem returns_intResult (read : Int64 × MsgpackReader) :
    Returns read.2 (intResult read : Decoded F) := by
  rw [intResult]
  split
  all_goals exact returns_some _ (Nat.le_refl _)

theorem returns_floatResult (toFloat : Int64 → F) (read : Int64 × MsgpackReader) :
    Returns read.2 (floatResult toFloat read) := by
  rw [floatResult]
  split
  all_goals exact returns_some _ (Nat.le_refl _)

theorem returns_decodeString (r : MsgpackReader) (len : Int64) :
    Returns r (decodeString r len : Decoded F) := by
  rw [decodeString]
  split
  · exact returns_some _ (Nat.le_refl _)
  · exact returns_some _ (remaining_readBytes_le _ r)

section Parts

variable {decodeItem : MsgpackReader → Decoded F} {bound : Nat}
  (each : ∀ r : MsgpackReader, r.remaining ≤ bound → Returns r (decodeItem r))

include each

theorem returns_decodeItems (n : Nat) (items : List (MsgpackValue F)) (within : r.remaining ≤ bound) :
    Returns r (decodeItems decodeItem n items r) := by
  induction n generalizing items r with
  | zero => exact returns_some _ (Nat.le_refl _)
  | succ n ih =>
      rw [decodeItems]
      split
      · exact returns_some _ (Nat.le_refl _)
      · rcases each r within with ⟨item, after, isRead, less⟩
        rw [isRead, Option.bind_some]
        exact (ih _ (Nat.le_trans less within)).trans less

theorem returns_decodeArray (within : r.remaining ≤ bound) (len : Int64) :
    Returns r (decodeArray decodeItem r len) := by
  rw [decodeArray]
  split
  · exact returns_some _ (Nat.le_refl _)
  · exact returns_decodeItems each _ _ within

theorem returns_decodeEntries (n : Nat) (m : List (CString × MsgpackValue F))
    (within : r.remaining ≤ bound) : Returns r (decodeEntries decodeItem n m r) := by
  induction n generalizing m r with
  | zero => exact returns_some _ (Nat.le_refl _)
  | succ n ih =>
      rw [decodeEntries]
      split
      · exact returns_some _ (Nat.le_refl _)
      · rcases each r within with ⟨key, behindKey, isKey, less⟩
        rcases each behindKey (Nat.le_trans less within) with ⟨value, after, isValue, lesser⟩
        have least := Nat.le_trans lesser less
        rw [isKey, Option.bind_some, isValue, Option.bind_some]
        split
        · exact (ih _ (Nat.le_trans least within)).trans least
        · exact returns_some _ least

theorem returns_decodeMap (within : r.remaining ≤ bound) (len : Int64) :
    Returns r (decodeMap decodeItem r len) := by
  rw [decodeMap]
  split
  · exact returns_some _ (Nat.le_refl _)
  · exact returns_decodeEntries each _ _ within

theorem returns_decodeTagged (tag : Int64) (within : r.remaining ≤ bound) :
    Returns r (decodeTagged runtime decodeItem tag r) := by
  have behind : ∀ n, (r.readBE n).2.remaining ≤ r.remaining := fun n => remaining_readBELoop_le n 0 r
  have within' : ∀ n, (r.readBE n).2.remaining ≤ bound := fun n => Nat.le_trans (behind n) within
  rw [decodeTagged]
  repeat' with_reducible apply returns_ite
  all_goals first
    | exact returns_some _ (Nat.le_refl _)
    | exact returns_decodeString r _
    | exact returns_decodeArray each within _
    | exact returns_decodeMap each within _
    | exact (returns_intResult _).trans (behind _)
    | exact (returns_floatResult _ _).trans (behind _)
    | exact (returns_decodeString _ _).trans (behind _)
    | exact (returns_decodeArray each (within' _) _).trans (behind _)
    | exact (returns_decodeMap each (within' _) _).trans (behind _)

end Parts

theorem decodeValue_returns (fuel : Nat) (r : MsgpackReader) (enough : r.remaining < fuel) :
    Returns r (decodeValue runtime fuel r) := by
  induction fuel generalizing r with
  | zero => exact absurd enough (Nat.not_lt_zero _)
  | succ fuel ih =>
      rw [decodeValue]
      rcases remaining_readByte r with ⟨hasFailed, same⟩ | less
      · rw [if_pos hasFailed]
        exact returns_some _ (Nat.le_of_eq same)
      · split
        · exact returns_some _ (Nat.le_of_lt less)
        · have behind : (MsgpackReader.readByte r).2.remaining < fuel :=
            Nat.lt_of_lt_of_le less (Nat.le_of_lt_succ enough)
          have returns := returns_decodeTagged runtime
            (fun before within => ih before (Nat.lt_of_le_of_lt within behind))
            (MsgpackReader.readByte r).1 (Nat.le_refl _)
          exact returns.trans (Nat.le_of_lt less)

/-- Whatever the bytes are, decoding returns: values nest no deeper than there are bytes. -/
theorem decodeReader_returns (bytes : List Int64) :
    Returns (MsgpackReader.new bytes) (decodeReader runtime bytes) :=
  decodeValue_returns runtime (bytes.length + 1) _ (Nat.lt_succ_self _)

end Tinox.Formats.Msgpack
