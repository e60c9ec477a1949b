import Tinox.Amqp.Values10

/-!
# AMQP 1.0 values survive the wire

A value is read as it was written exactly when its lengths and counts fit into the 32 bits in
which the writer puts them.
-/

namespace Tinox.Amqp

open Tinox.Net Tinox.Runtime Amqp10Writer Amqp10Reader

mutual

/-- A predicate on every part of a value. -/
def Everywhere (p : Amqp10Value → Prop) : Amqp10Value → Prop
  | .listVal items => p (.listVal items) ∧ EverywhereIn p items
  | .mapVal pairs => p (.mapVal pairs) ∧ EverywhereIn p pairs
  | .describedVal descriptor value => p (.describedVal descriptor value) ∧ Everywhere p value
  | v => p v

def EverywhereIn (p : Amqp10Value → Prop) : List Amqp10Value → Prop
  | [] => True
  | item :: items => Everywhere p item ∧ EverywhereIn p items

end

/-- A part of a value that is in the range of its type. -/
def InRange : Amqp10Value → Prop
  | .uByteVal n => Between 0 (2 ^ 8) n
  | .uShortVal n => Between 0 (2 ^ 16) n
  | .uIntVal n => Between 0 (2 ^ 32) n
  | .byteVal n => Between (-2 ^ 7) (2 ^ 7) n
  | .shortVal n => Between (-2 ^ 15) (2 ^ 15) n
  | .intVal n => Between (-2 ^ 31) (2 ^ 31) n
  | .charVal n => Between 0 (2 ^ 32) n
  | .uuidVal bytes => bytes.length = 16 ∧ AreBytes bytes
  | .binaryVal bytes => AreBytes bytes
  | .strVal s => 0 ∉ s
  | .symbolVal s => 0 ∉ s
  | .describedVal descriptor _ => Between 0 (2 ^ 8) descriptor
  | .errorVal _ => False
  | _ => True

/-- A part of a value whose length or count has 32 bits. -/
def Fits : Amqp10Value → Prop
  | .binaryVal bytes => bytes.length < 2 ^ 32
  | .strVal s => s.length < 2 ^ 32
  | .symbolVal s => s.length < 2 ^ 32
  | .listVal items => items.length < 2 ^ 32
  | .mapVal pairs => pairs.length < 2 ^ 32
  | _ => True

mutual

/-- How deep a value is nested. -/
def height : Amqp10Value → Nat
  | .listVal items => heights items
  | .mapVal pairs => heights pairs
  | .describedVal _ value => height value + 1
  | _ => 0

/-- How deep a list with these items is nested. -/
def heights : List Amqp10Value → Nat
  | [] => 0
  | item :: items => max (height item + 1) (heights items)

end

theorem readU8_pushU8 (v : Int64) (rest : List Int64) (pos : Nat) (truncated : Bool) :
    readU8 ⟨pushU8 v ++ rest, pos, truncated⟩ =
      (Int64.ofNat (bits v % 2 ^ 8), ⟨rest, pos + 1, truncated⟩) := by
  have isLow := low_eq v
  rw [Nat.pow_zero, Nat.div_one] at isLow
  exact congrArg (fun b => (b, (⟨rest, pos + 1, truncated⟩ : Reader))) isLow

theorem readU16_pushU16 (v : Int64) (rest : List Int64) (pos : Nat) (truncated : Bool) :
    readU16 ⟨pushU16 v ++ rest, pos, truncated⟩ =
      (Int64.ofNat (bits v % 2 ^ 16), ⟨rest, pos + 2, truncated⟩) := by
  have isHigh := @byteAt_eq v 8 1 (by decide) (by decide)
  have isLow := low_eq v
  rw [Nat.pow_one] at isHigh
  rw [Nat.pow_zero, Nat.div_one] at isLow
  have isBits : bits (Int64.ofNat (bits v / 256 % 256)) = bits v / 256 % 256 := bits_ofNat (by omega)
  have isPair := @shifted_or (Int64.ofNat (bits v / 256 % 256)) (bits v % 256) (Nat.mod_lt _ (by decide))
    (by rw [isBits]; omega)
  have isNumber : bits v / 256 % 256 * 256 + bits v % 256 = bits v % 2 ^ 16 := by omega
  rw [isBits, isNumber, ← isHigh, ← isLow] at isPair
  exact congrArg (fun b => (b, (⟨rest, pos + 2, truncated⟩ : Reader))) isPair

theorem readU32_pushU32 (v : Int64) (rest : List Int64) (pos : Nat) (truncated : Bool) :
    readU32 ⟨pushU32 v ++ rest, pos, truncated⟩ =
      (Int64.ofNat (bits v % 2 ^ 32), ⟨rest, pos + 4, truncated⟩) :=
  readNumber_fourBytes v rest pos truncated

theorem readU64_pushU64 (v : Int64) (rest : List Int64) (pos : Nat) (truncated : Bool) :
    readU64 ⟨pushU64 v ++ rest, pos, truncated⟩ = (v, ⟨rest, pos + 8, truncated⟩) :=
  readNumber_eightBytes v rest pos truncated

theorem readBytesLoop_spec (data rest : List Int64) (pos : Nat) :
    readBytesLoop data.length ⟨data ++ rest, pos, false⟩ = (data, ⟨rest, pos + data.length, false⟩) := by
  induction data generalizing pos with
  | nil => rfl
  | cons b data ih =>
      have isByte : readU8 ⟨b :: data ++ rest, pos, false⟩ = (b, ⟨data ++ rest, pos + 1, false⟩) := rfl
      rw [List.length_cons, readBytesLoop, isByte]
      dsimp only
      rw [if_neg Bool.false_ne_true, ih (pos + 1), Nat.add_assoc, Nat.add_comm 1]

theorem length_readBytesLoop_le (n : Nat) (r : Reader) : (readBytesLoop n r).1.length ≤ n := by
  induction n generalizing r with
  | zero => exact Nat.le_refl 0
  | succ n ih =>
      rw [readBytesLoop]
      split
      · exact Nat.zero_le _
      · exact Nat.succ_le_succ (ih _)

mutual

theorem areBytes_writeValue : ∀ v : Amqp10Value, AreBytes (writeValue v)
  | .nullVal => areBytes_lowBytes [_]
  | .boolVal true => areBytes_lowBytes [_, _]
  | .boolVal false => areBytes_lowBytes [_, _]
  | .uByteVal _ => areBytes_lowBytes [_, _]
  | .uShortVal _ => areBytes_lowBytes [_, _, _]
  | .uIntVal n => areBytes_append.mpr ⟨areBytes_lowBytes [_], areBytes_fourBytes n⟩
  | .uLongVal n => areBytes_append.mpr ⟨areBytes_lowBytes [_], areBytes_eightBytes n⟩
  | .byteVal _ => areBytes_lowBytes [_, _]
  | .shortVal _ => areBytes_lowBytes [_, _, _]
  | .intVal n => areBytes_append.mpr ⟨areBytes_lowBytes [_], areBytes_fourBytes n⟩
  | .longVal n => areBytes_append.mpr ⟨areBytes_lowBytes [_], areBytes_eightBytes n⟩
  | .charVal n => areBytes_append.mpr ⟨areBytes_lowBytes [_], areBytes_fourBytes n⟩
  | .timestampVal n => areBytes_append.mpr ⟨areBytes_lowBytes [_], areBytes_eightBytes n⟩
  | .uuidVal bytes => areBytes_append.mpr ⟨areBytes_lowBytes [_], areBytes_lowBytes bytes⟩
  | .binaryVal bytes => areBytes_append.mpr
      ⟨areBytes_append.mpr ⟨areBytes_lowBytes [_], areBytes_fourBytes _⟩, areBytes_lowBytes bytes⟩
  | .strVal s => areBytes_append.mpr
      ⟨areBytes_append.mpr ⟨areBytes_lowBytes [_], areBytes_fourBytes _⟩, areBytes_stringBytes s⟩
  | .symbolVal s => areBytes_append.mpr
      ⟨areBytes_append.mpr ⟨areBytes_lowBytes [_], areBytes_fourBytes _⟩, areBytes_stringBytes s⟩
  | .listVal _ => areBytes_append.mpr ⟨areBytes_append.mpr
      ⟨areBytes_append.mpr ⟨areBytes_lowBytes [_], areBytes_fourBytes _⟩, areBytes_fourBytes _⟩,
      areBytes_lowBytes _⟩
  | .mapVal _ => areBytes_append.mpr ⟨areBytes_append.mpr
      ⟨areBytes_append.mpr ⟨areBytes_lowBytes [_], areBytes_fourBytes _⟩, areBytes_fourBytes _⟩,
      areBytes_lowBytes _⟩
  | .describedVal _ value => areBytes_append.mpr ⟨areBytes_lowBytes [_, _, _], areBytes_writeValue value⟩
  | .errorVal _ => areBytes_lowBytes [_]

theorem areBytes_writeValues : ∀ items : List Amqp10Value, AreBytes (writeValues items)
  | [] => nofun
  | item :: items => areBytes_append.mpr ⟨areBytes_writeValue item, areBytes_writeValues items⟩

end

/-- What the reader does with a value: it reads it with enough fuel. -/
def ReadsBack (v : Amqp10Value) : Prop :=
  ∀ (fuel : Nat) (rest : List Int64) (pos : Nat),
    readValue fuel ⟨writeValue v ++ rest, pos, false⟩ =
      if height v < fuel then some (v, ⟨rest, pos + (writeValue v).length, false⟩) else none

variable {r : Reader} {bytes : List Int64}

theorem readsBack_flat {v : Amqp10Value} {code : Int64} {data : List Int64}
    (isWritten : writeValue v = pushU8 code ++ data) (isFlat : height v = 0)
    (isByte : Int64.ofNat (bits code % 2 ^ 8) = code)
    (isRead : ∀ (fuel : Nat) (rest : List Int64) (pos : Nat),
      readValueOfCode (fuel + 1) code ⟨data ++ rest, pos, false⟩ =
        some (v, ⟨rest, pos + data.length, false⟩)) : ReadsBack v := by
  intro fuel rest pos
  rw [isWritten, isFlat, readValue, List.append_assoc, readU8_pushU8, isByte]
  cases fuel with
  | zero => rfl
  | succ fuel =>
      have isLength : pos + (pushU8 code ++ data).length = pos + 1 + data.length := by
        rw [List.length_append, Nat.add_assoc]
        rfl
      rw [if_pos (Nat.succ_pos fuel), isRead, isLength]

theorem valueAs_eq {α : Type} (make : α → Amqp10Value) {read : α × Reader} {a : α} {v : Amqp10Value}
    (isRead : read = (a, r)) (same : make a = v) : valueAs make read = some (v, r) := by
  rw [valueAs, isRead, same]

theorem readRawStr_text {s : CString} (noZero : 0 ∉ s) (fits : s.length < 2 ^ 32) (rest : List Int64)
    (pos : Nat) :
    readRawStr (readU32 ⟨pushU32 (Int64.ofNat s.length) ++ pushRawStr s ++ rest, pos, false⟩).1
        (readU32 ⟨pushU32 (Int64.ofNat s.length) ++ pushRawStr s ++ rest, pos, false⟩).2 =
      (s, ⟨rest, pos + (pushU32 (Int64.ofNat s.length) ++ pushRawStr s).length, false⟩) := by
  have isLength : (s.map byteValue).length = s.length := List.length_map _
  have read := readBytesLoop_spec (s.map byteValue) rest (pos + 4)
  rw [isLength] at read
  rw [List.append_assoc, readU32_pushU32, pushRawStr, stringBytes_eq, readRawStr, length_bits,
    Nat.mod_eq_of_lt fits, read, tinoxBytesToString_bytes noZero, List.length_append, isLength,
    ← Nat.add_assoc]
  rfl

theorem readRawBytes_binary (areBytes : AreBytes bytes) (fits : bytes.length < 2 ^ 32)
    (rest : List Int64) (pos : Nat) :
    readRawBytes (readU32 ⟨pushU32 (Int64.ofNat bytes.length) ++ pushRawBytes bytes ++ rest, pos, false⟩).1
        (readU32 ⟨pushU32 (Int64.ofNat bytes.length) ++ pushRawBytes bytes ++ rest, pos, false⟩).2 =
      (bytes, ⟨rest, pos + (pushU32 (Int64.ofNat bytes.length) ++ pushRawBytes bytes).length, false⟩) := by
  rw [List.append_assoc, readU32_pushU32, pushRawBytes, lowBytes_eq areBytes, readRawBytes, length_bits,
    Nat.mod_eq_of_lt fits, readBytesLoop_spec, List.length_append, ← Nat.add_assoc]
  rfl

variable {items : List Amqp10Value}

theorem readItems_writeValues (each : ∀ item ∈ items, ReadsBack item) (fuel : Nat)
    (rest : List Int64) (pos : Nat) :
    readItems (readValue fuel) items.length ⟨writeValues items ++ rest, pos, false⟩ =
      if heights items ≤ fuel then some (items, ⟨rest, pos + (writeValues items).length, false⟩)
      else none := by
  induction items generalizing pos with
  | nil =>
      rw [heights, if_pos (Nat.zero_le fuel)]
      rfl
  | cons item items ih =>
      rw [List.forall_mem_cons] at each
      rw [List.length_cons, writeValues, List.append_assoc, readItems, each.1]
      dsimp only
      rw [if_neg Bool.false_ne_true, heights]
      by_cases isFlat : height item < fuel
      · rw [if_pos isFlat, Option.bind_some, ih each.2]
        by_cases areFlat : heights items ≤ fuel
        · rw [if_pos areFlat, if_pos (Nat.max_le.mpr ⟨isFlat, areFlat⟩), Option.map_some,
            List.length_append, Nat.add_assoc]
        · rw [if_neg areFlat, if_neg (fun both => areFlat (Nat.max_le.mp both).2), Option.map_none]
      · rw [if_neg isFlat, if_neg (fun both => isFlat (Nat.max_le.mp both).1), Option.bind_none]

theorem readCompound (count : Nat) (inner rest : List Int64) (pos : Nat) :
    let r : Reader := ⟨pushU32 (4 + Int64.ofNat inner.length) ++ (pushU32 (Int64.ofNat count) ++
      (inner ++ rest)), pos, false⟩
    (readU32 (readU32 r).2).1.toInt.toNat = count % 2 ^ 32 ∧
      (readU32 (readU32 r).2).2 = ⟨inner ++ rest, pos + 8, false⟩ := by
  dsimp only
  rw [readU32_pushU32, readU32_pushU32]
  exact ⟨length_bits count, rfl⟩

theorem readsBack_compound {v : Amqp10Value} {code : Int64} {items : List Amqp10Value}
    {make : List Amqp10Value → Amqp10Value} (isValue : make items = v)
    (isWritten : writeValue v = compound code items.length (writeValues items))
    (isHigh : height v = heights items) (isByte : Int64.ofNat (bits code % 2 ^ 8) = code)
    (isRead : ∀ (fuel : Nat) (bytes : List Int64) (pos : Nat),
      readValueOfCode (fuel + 1) code ⟨bytes, pos, false⟩ =
        (readItems (readValue fuel) (readU32 (readU32 ⟨bytes, pos, false⟩).2).1.toInt.toNat
          (readU32 (readU32 ⟨bytes, pos, false⟩).2).2).map fun items => (make items.1, items.2))
    (fits : items.length < 2 ^ 32) (each : ∀ item ∈ items, ReadsBack item) : ReadsBack v := by
  intro fuel rest pos
  have isInner : pushRawBytes (writeValues items) = writeValues items :=
    lowBytes_eq (areBytes_writeValues items)
  rw [isWritten, isHigh, readValue, compound, isInner, List.append_assoc, List.append_assoc,
    List.append_assoc, readU8_pushU8, isByte]
  cases fuel with
  | zero => rfl
  | succ fuel =>
      rcases readCompound items.length (writeValues items) rest (pos + 1) with ⟨isCount, isRest⟩
      dsimp only at isCount isRest ⊢
      rw [isRead, isCount, isRest, Nat.mod_eq_of_lt fits, readItems_writeValues each]
      by_cases areFlat : heights items ≤ fuel
      · have isLength : pos + (pushU8 code ++ pushU32 (4 + Int64.ofNat (writeValues items).length) ++
            pushU32 (Int64.ofNat items.length) ++ writeValues items).length =
              pos + 1 + 8 + (writeValues items).length := by
          rw [List.length_append, List.length_append, List.length_append, ← Nat.add_assoc,
            ← Nat.add_assoc, ← Nat.add_assoc]
          rfl
        rw [if_pos areFlat, if_pos (Nat.lt_succ_of_le areFlat), Option.map_some, isLength, isValue]
      · rw [if_neg areFlat, if_neg (fun less => areFlat (Nat.le_of_lt_succ less)), Option.map_none]

theorem readsBack_described {descriptor : Int64} {value : Amqp10Value}
    (inRange : Between 0 (2 ^ 8) descriptor) (isRead : ReadsBack value) :
    ReadsBack (.describedVal descriptor value) := by
  intro fuel rest pos
  have isZero : Int64.ofNat (bits 0 % 2 ^ 8) = 0 := rfl
  have isCode : Int64.ofNat (bits 0x53 % 2 ^ 8) = 0x53 := rfl
  have isDescriptor : Int64.ofNat (bits descriptor % 2 ^ 8) = descriptor :=
    @unsigned_eq descriptor (2 ^ 8) inRange
  rw [writeValue, height, readValue, List.append_assoc, List.append_assoc, List.append_assoc,
    readU8_pushU8, isZero]
  cases fuel with
  | zero => rfl
  | succ fuel =>
      have isDescribed (bytes : List Int64) : readValueOfCode (fuel + 1) 0 ⟨bytes, pos + 1, false⟩ =
          readDescribed (readValue fuel) ⟨bytes, pos + 1, false⟩ := rfl
      dsimp only
      rw [isDescribed, readDescribed]
      cases fuel with
      | zero =>
          rw [if_neg (fun less => Nat.not_lt_zero _ (Nat.lt_of_succ_lt_succ less))]
          rfl
      | succ fuel =>
          have isFirst : readValue (fuel + 1) ⟨pushU8 0x53 ++ (pushU8 descriptor ++
              (writeValue value ++ rest)), pos + 1, false⟩ =
                some (.uLongVal descriptor, ⟨writeValue value ++ rest, pos + 3, false⟩) := by
            rw [readValue, readU8_pushU8, isCode]
            exact valueAs_eq .uLongVal (readU8_pushU8 descriptor _ _ _) (by rw [isDescriptor])
          rw [isFirst, Option.bind_some, isRead]
          by_cases isFlat : height value < fuel + 1
          · rw [if_pos isFlat, if_pos (Nat.succ_lt_succ isFlat), Option.map_some, List.length_append,
              List.length_append, List.length_append, ← Nat.add_assoc, ← Nat.add_assoc, ← Nat.add_assoc]
            rfl
          · rw [if_neg isFlat, if_neg (fun less => isFlat (Nat.lt_of_succ_lt_succ less)),
              Option.map_none]

section Numbers

variable {n : Int64}

theorem toSigned8_eq (inRange : Between (-2 ^ 7) (2 ^ 7) n) :
    toSigned8 (Int64.ofNat (bits n % 2 ^ 8)) = n := by
  have isHalf : (128 : Int64) = Int64.ofNat (2 ^ 7) := by decide
  have isWhole : (256 : Int64) = Int64.ofNat (2 * 2 ^ 7) := by decide
  have isModulus : 2 ^ 8 = 2 * 2 ^ 7 := by decide
  rw [toSigned8, isHalf, isWhole, isModulus]
  exact signed_eq (Or.inl rfl) (by push_cast; exact inRange)

theorem toSigned16_eq (inRange : Between (-2 ^ 15) (2 ^ 15) n) :
    toSigned16 (Int64.ofNat (bits n % 2 ^ 16)) = n := by
  have isHalf : (32768 : Int64) = Int64.ofNat (2 ^ 15) := by decide
  have isWhole : (65536 : Int64) = Int64.ofNat (2 * 2 ^ 15) := by decide
  have isModulus : 2 ^ 16 = 2 * 2 ^ 15 := by decide
  rw [toSigned16, isHalf, isWhole, isModulus]
  exact signed_eq (Or.inr (Or.inl rfl)) (by push_cast; exact inRange)

theorem toSigned32_eq (inRange : Between (-2 ^ 31) (2 ^ 31) n) :
    toSigned32 (Int64.ofNat (bits n % 2 ^ 32)) = n :=
  signed32_eq inRange

end Numbers

theorem readRawBytes_uuid (isLength : bytes.length = 16) (areBytes : AreBytes bytes)
    (rest : List Int64) (pos : Nat) : readRawBytes 16 ⟨pushRawBytes bytes ++ rest, pos, false⟩ =
      (bytes, ⟨rest, pos + (pushRawBytes bytes).length, false⟩) := by
  have read := readBytesLoop_spec bytes rest pos
  rw [isLength] at read
  rw [pushRawBytes, lowBytes_eq areBytes, isLength]
  exact read

mutual

theorem readsBack : ∀ v : Amqp10Value, Everywhere InRange v → Everywhere Fits v → ReadsBack v
  | .nullVal, _, _ => @readsBack_flat _ 0x40 [] rfl rfl rfl fun _ _ _ => rfl
  | .boolVal true, _, _ => @readsBack_flat _ 0x56 [1] rfl rfl rfl fun _ _ _ => rfl
  | .boolVal false, _, _ => @readsBack_flat _ 0x56 [0] rfl rfl rfl fun _ _ _ => rfl
  | .uByteVal n, inRange, _ => readsBack_flat rfl rfl rfl fun _ _ _ =>
      valueAs_eq .uByteVal (readU8_pushU8 n _ _ _) (congrArg _ (@unsigned_eq n (2 ^ 8) inRange))
  | .uShortVal n, inRange, _ => readsBack_flat rfl rfl rfl fun _ _ _ =>
      valueAs_eq .uShortVal (readU16_pushU16 n _ _ _)
        (congrArg _ (@unsigned_eq n (2 ^ 16) inRange))
  | .uIntVal n, inRange, _ => readsBack_flat rfl rfl rfl fun _ _ _ =>
      valueAs_eq .uIntVal (readU32_pushU32 n _ _ _)
        (congrArg _ (@unsigned_eq n (2 ^ 32) inRange))
  | .uLongVal n, _, _ => readsBack_flat rfl rfl rfl fun _ _ _ =>
      valueAs_eq .uLongVal (readU64_pushU64 n _ _ _) rfl
  | .byteVal n, inRange, _ => readsBack_flat rfl rfl rfl fun _ _ _ =>
      valueAs_eq (fun m => .byteVal (toSigned8 m)) (readU8_pushU8 n _ _ _)
        (congrArg _ (toSigned8_eq inRange))
  | .shortVal n, inRange, _ => readsBack_flat rfl rfl rfl fun _ _ _ =>
      valueAs_eq (fun m => .shortVal (toSigned16 m)) (readU16_pushU16 n _ _ _)
        (congrArg _ (toSigned16_eq inRange))
  | .intVal n, inRange, _ => readsBack_flat rfl rfl rfl fun _ _ _ =>
      valueAs_eq (fun m => .intVal (toSigned32 m)) (readU32_pushU32 n _ _ _)
        (congrArg _ (toSigned32_eq inRange))
  | .longVal n, _, _ => readsBack_flat rfl rfl rfl fun _ _ _ =>
      valueAs_eq .longVal (readU64_pushU64 n _ _ _) rfl
  | .charVal n, inRange, _ => readsBack_flat rfl rfl rfl fun _ _ _ =>
      valueAs_eq .charVal (readU32_pushU32 n _ _ _)
        (congrArg _ (@unsigned_eq n (2 ^ 32) inRange))
  | .timestampVal n, _, _ => readsBack_flat rfl rfl rfl fun _ _ _ =>
      valueAs_eq .timestampVal (readU64_pushU64 n _ _ _) rfl
  | .uuidVal bytes, inRange, _ => readsBack_flat rfl rfl rfl fun _ rest pos =>
      valueAs_eq .uuidVal (readRawBytes_uuid inRange.1 inRange.2 rest pos) rfl
  | .binaryVal bytes, inRange, fits =>
      @readsBack_flat _ 0xb0 (pushU32 (Int64.ofNat bytes.length) ++ pushRawBytes bytes)
        (List.append_assoc ..) rfl rfl fun _ rest pos =>
          valueAs_eq .binaryVal (readRawBytes_binary inRange fits rest pos) rfl
  | .strVal s, inRange, fits =>
      @readsBack_flat _ 0xb1 (pushU32 (Int64.ofNat s.length) ++ pushRawStr s) (List.append_assoc ..) rfl rfl
        fun _ rest pos => valueAs_eq .strVal (readRawStr_text inRange fits rest pos) rfl
  | .symbolVal s, inRange, fits =>
      @readsBack_flat _ 0xb3 (pushU32 (Int64.ofNat s.length) ++ pushRawStr s) (List.append_assoc ..) rfl rfl
        fun _ rest pos => valueAs_eq .symbolVal (readRawStr_text inRange fits rest pos) rfl
  | .listVal items, inRange, fits =>
      @readsBack_compound _ 0xd0 items .listVal rfl rfl rfl rfl (fun _ _ _ => rfl) fits.1
        (readsBack_items items inRange.2 fits.2)
  | .mapVal pairs, inRange, fits =>
      @readsBack_compound _ 0xd1 pairs .mapVal rfl rfl rfl rfl (fun _ _ _ => rfl) fits.1
        (readsBack_items pairs inRange.2 fits.2)
  | .describedVal _ value, inRange, fits =>
      readsBack_described inRange.1 (readsBack value inRange.2 fits.2)

theorem readsBack_items : ∀ items : List Amqp10Value, EverywhereIn InRange items →
    EverywhereIn Fits items → ∀ item ∈ items, ReadsBack item
  | [], _, _ => nofun
  | item :: items, inRange, fits => List.forall_mem_cons.mpr
      ⟨readsBack item inRange.1 fits.1, readsBack_items items inRange.2 fits.2⟩

end

variable {code : Int64} {fuel pos : Nat} {rest : List Int64}

theorem readValue_code (isByte : Int64.ofNat (bits code % 2 ^ 8) = code) {data : List Int64}
    {result : Amqp10Value × Reader}
    (isRead : readValue fuel ⟨pushU8 code ++ data ++ rest, pos, false⟩ = some result) :
    ∃ fuel', fuel = fuel' + 1 ∧
      readValueOfCode (fuel' + 1) code ⟨data ++ rest, pos + 1, false⟩ = some result := by
  rw [List.append_assoc, readValue, readU8_pushU8, isByte] at isRead
  cases fuel with
  | zero => exact nomatch isRead
  | succ fuel => exact ⟨fuel, rfl, isRead⟩

theorem valueAs_some {α : Type} {make : α → Amqp10Value} {read : α × Reader}
    {result : Amqp10Value × Reader} (isRead : valueAs make read = some result) :
    make read.1 = result.1 :=
  congrArg Prod.fst (Option.some_inj.mp isRead)

theorem readCount_lt (n : Nat) (rest : List Int64) (pos : Nat) :
    (readU32 ⟨pushU32 (Int64.ofNat n) ++ rest, pos, false⟩).1.toInt.toNat < 2 ^ 32 := by
  rw [readU32_pushU32, length_bits]
  exact Nat.mod_lt _ (by decide)

theorem length_readRawStr_le (n : Int64) (r : Reader) :
    (readRawStr n r).1.length ≤ n.toInt.toNat := by
  have isShort := length_cString_le ((readBytesLoop n.toInt.toNat r).1.map lowByte)
  rw [List.length_map] at isShort
  exact Nat.le_trans isShort (length_readBytesLoop_le _ _)

theorem length_readItems_le {readItem : Reader → Option (Amqp10Value × Reader)} {count : Nat}
    {r' : Reader} (isRead : readItems readItem count r = some (items, r')) :
    items.length ≤ count := by
  induction count generalizing r r' items with
  | zero =>
      rw [readItems, Option.some_inj, Prod.mk.injEq] at isRead
      rw [← isRead.1]
      exact Nat.le_refl 0
  | succ count ih =>
      rw [readItems] at isRead
      split at isRead
      · rw [Option.some_inj, Prod.mk.injEq] at isRead
        rw [← isRead.1]
        exact Nat.zero_le _
      · rcases Option.bind_eq_some_iff.mp isRead with ⟨item, _, isRest⟩
        rcases Option.map_eq_some_iff.mp isRest with ⟨rest, areItems, isWhole⟩
        rw [Prod.mk.injEq] at isWhole
        rw [← isWhole.1]
        exact Nat.succ_le_succ (ih areItems)

theorem readCompound_some {make : List Amqp10Value → Amqp10Value}
    (isInjective : Function.Injective make) (isByte : Int64.ofNat (bits code % 2 ^ 8) = code)
    (isRead : ∀ (fuel : Nat) (bytes : List Int64) (pos : Nat), readValueOfCode (fuel + 1) code ⟨bytes, pos, false⟩ = (readItems (readValue fuel) (readU32 (readU32 ⟨bytes, pos, false⟩).2).1.toInt.toNat (readU32 (readU32 ⟨bytes, pos, false⟩).2).2).map fun items => (make items.1, items.2))
    (same : readValue fuel ⟨compound code items.length (writeValues items) ++ rest, pos, false⟩ = some (make items, r)) :
    items.length < 2 ^ 32 ∧ ∃ fuel' r', readItems (readValue fuel') items.length
      ⟨writeValues items ++ rest, pos + 9, false⟩ = some (items, r') := by
  have isInner : pushRawBytes (writeValues items) = writeValues items :=
    lowBytes_eq (areBytes_writeValues items)
  rw [compound, isInner, List.append_assoc, List.append_assoc] at same
  rcases readValue_code isByte same with ⟨fuel', _, isBehind⟩
  rcases readCompound items.length (writeValues items) rest (pos + 1) with ⟨isCount, isRest⟩
  rw [isRead, isCount, isRest] at isBehind
  rcases Option.map_eq_some_iff.mp isBehind with ⟨result, areItems, isValue⟩
  rw [Prod.mk.injEq] at isValue
  rcases result with ⟨read, r'⟩
  have isAll : read = items := isInjective isValue.1
  rw [isAll] at areItems
  have isShort : items.length < 2 ^ 32 :=
    Nat.lt_of_le_of_lt (length_readItems_le areItems) (Nat.mod_lt _ (by decide))
  rw [Nat.mod_eq_of_lt isShort] at areItems
  exact ⟨isShort, fuel', r', areItems⟩

theorem length_lt_of_binary
    (isRead : readValue fuel ⟨writeValue (.binaryVal bytes) ++ rest, pos, false⟩ = some (.binaryVal bytes, r)) :
    bytes.length < 2 ^ 32 := by
  rw [writeValue, List.append_assoc (pushU8 0xb0)] at isRead
  rcases readValue_code rfl isRead with ⟨fuel', _, isBehind⟩
  rw [List.append_assoc] at isBehind
  have isData := Amqp10Value.binaryVal.inj (valueAs_some isBehind)
  have isShort := length_readBytesLoop_le (readU32 ⟨pushU32 (Int64.ofNat bytes.length) ++
    (pushRawBytes bytes ++ rest), pos + 1, false⟩).1.toInt.toNat (readU32 ⟨pushU32
    (Int64.ofNat bytes.length) ++ (pushRawBytes bytes ++ rest), pos + 1, false⟩).2
  rw [readRawBytes] at isData
  rw [isData] at isShort
  exact Nat.lt_of_le_of_lt isShort (readCount_lt _ _ _)

theorem length_lt_of_text {s : CString} {make : CString → Amqp10Value}
    (isInjective : Function.Injective make) (isByte : Int64.ofNat (bits code % 2 ^ 8) = code)
    (isText : ∀ (fuel : Nat) (r : Reader), readValueOfCode (fuel + 1) code ⟨r.bytes, r.pos, false⟩ = valueAs make (readRawStr (readU32 ⟨r.bytes, r.pos, false⟩).1 (readU32 ⟨r.bytes, r.pos, false⟩).2))
    (isRead : readValue fuel ⟨text code s ++ rest, pos, false⟩ = some (make s, r)) :
    s.length < 2 ^ 32 := by
  rw [text, List.append_assoc (pushU8 code)] at isRead
  rcases readValue_code isByte isRead with ⟨fuel', _, isBehind⟩
  rw [List.append_assoc, isText fuel' ⟨_, _, false⟩] at isBehind
  have isData := isInjective (valueAs_some isBehind)
  have isShort := length_readRawStr_le (readU32 ⟨pushU32 (Int64.ofNat s.length) ++
    (pushRawStr s ++ rest), pos + 1, false⟩).1 (readU32 ⟨pushU32 (Int64.ofNat s.length) ++
    (pushRawStr s ++ rest), pos + 1, false⟩).2
  rw [isData] at isShort
  exact Nat.lt_of_le_of_lt isShort (readCount_lt _ _ _)

theorem readDescribed_some {descriptor : Int64} {value : Amqp10Value}
    (isRead : readValue fuel ⟨writeValue (.describedVal descriptor value) ++ rest, pos, false⟩ = some (.describedVal descriptor value, r)) :
    ∃ fuel' pos' r', readValue fuel' ⟨writeValue value ++ rest, pos', false⟩ = some (value, r') := by
  have isCode : Int64.ofNat (bits 0x53 % 2 ^ 8) = 0x53 := rfl
  rw [writeValue, List.append_assoc, List.append_assoc] at isRead
  rcases readValue_code rfl isRead with ⟨fuel', _, isBehind⟩
  have isDescribed (bytes : List Int64) : readValueOfCode (fuel' + 1) 0 ⟨bytes, pos + 1, false⟩ =
      readDescribed (readValue fuel') ⟨bytes, pos + 1, false⟩ := rfl
  rw [isDescribed, readDescribed] at isBehind
  rcases Option.bind_eq_some_iff.mp isBehind with ⟨descVal, isFirst, isRest⟩
  rcases Option.map_eq_some_iff.mp isRest with ⟨inner, isInner, isWhole⟩
  rw [readValue, readU8_pushU8, isCode] at isFirst
  cases fuel' with
  | zero => exact nomatch isFirst
  | succ fuel' =>
      have isLong := valueAs_eq .uLongVal (readU8_pushU8 descriptor (writeValue value ++ rest) (pos + 1 + 1)
        false) rfl
      have isDescVal := Option.some_inj.mp (isLong.symm.trans isFirst)
      rw [← isDescVal] at isInner isWhole
      dsimp only at isInner isWhole
      rw [Prod.mk.injEq, Amqp10Value.describedVal.injEq] at isWhole
      rcases inner with ⟨read, r'⟩
      have isValue : read = value := isWhole.1.2
      rw [isValue] at isInner
      exact ⟨_, _, r', isInner⟩

mutual

theorem fits_of_read : ∀ v : Amqp10Value, Everywhere InRange v →
    ∀ {fuel : Nat} {rest : List Int64} {pos : Nat} {r : Reader},
      readValue fuel ⟨writeValue v ++ rest, pos, false⟩ = some (v, r) → Everywhere Fits v
  | .nullVal, _, _, _, _, _, _ => trivial
  | .boolVal _, _, _, _, _, _, _ => trivial
  | .uByteVal _, _, _, _, _, _, _ => trivial
  | .uShortVal _, _, _, _, _, _, _ => trivial
  | .uIntVal _, _, _, _, _, _, _ => trivial
  | .uLongVal _, _, _, _, _, _, _ => trivial
  | .byteVal _, _, _, _, _, _, _ => trivial
  | .shortVal _, _, _, _, _, _, _ => trivial
  | .intVal _, _, _, _, _, _, _ => trivial
  | .longVal _, _, _, _, _, _, _ => trivial
  | .charVal _, _, _, _, _, _, _ => trivial
  | .timestampVal _, _, _, _, _, _, _ => trivial
  | .uuidVal _, _, _, _, _, _, _ => trivial
  | .errorVal _, _, _, _, _, _, _ => trivial
  | .binaryVal _, _, _, _, _, _, isRead => length_lt_of_binary isRead
  | .strVal _, _, _, _, _, _, isRead =>
      length_lt_of_text (fun _ _ same => Amqp10Value.strVal.inj same) rfl (fun _ _ => rfl) isRead
  | .symbolVal _, _, _, _, _, _, isRead =>
      length_lt_of_text (fun _ _ same => Amqp10Value.symbolVal.inj same) rfl (fun _ _ => rfl) isRead
  | .listVal items, inRange, fuel, rest, pos, r, isRead => by
      rcases readCompound_some (fun _ _ same => Amqp10Value.listVal.inj same) rfl (fun _ _ _ => rfl) isRead
        with ⟨isShort, fuel', r', areItems⟩
      exact ⟨isShort, fits_of_readItems items inRange.2 areItems⟩
  | .mapVal pairs, inRange, fuel, rest, pos, r, isRead => by
      rcases readCompound_some (fun _ _ same => Amqp10Value.mapVal.inj same) rfl (fun _ _ _ => rfl) isRead
        with ⟨isShort, fuel', r', areItems⟩
      exact ⟨isShort, fits_of_readItems pairs inRange.2 areItems⟩
  | .describedVal descriptor value, inRange, _, _, _, _, isRead => by
      rcases readDescribed_some isRead with ⟨fuel', pos', r', isValue⟩
      exact ⟨trivial, fits_of_read value inRange.2 isValue⟩

theorem fits_of_readItems : ∀ items : List Amqp10Value, EverywhereIn InRange items →
    ∀ {fuel : Nat} {rest : List Int64} {pos : Nat} {r : Reader},
      readItems (readValue fuel) items.length ⟨writeValues items ++ rest, pos, false⟩ = some (items, r) →
        EverywhereIn Fits items
  | [], _, _, _, _, _, _ => trivial
  | item :: items, inRange, fuel, rest, pos, r, isRead => by
      rw [List.length_cons, writeValues, List.append_assoc, readItems] at isRead
      dsimp only at isRead
      rw [if_neg Bool.false_ne_true] at isRead
      rcases Option.bind_eq_some_iff.mp isRead with ⟨first, isFirst, isRest⟩
      rcases Option.map_eq_some_iff.mp isRest with ⟨others, areOthers, isWhole⟩
      rw [Prod.mk.injEq, List.cons.injEq] at isWhole
      rcases first with ⟨value, r'⟩
      rcases others with ⟨values, r''⟩
      rcases isWhole with ⟨⟨isItem, areItems⟩, _⟩
      dsimp only at isItem areItems areOthers
      rw [isItem] at isFirst
      rw [areItems] at areOthers
      have fits := fits_of_read item inRange.1 isFirst
      have read := readsBack item inRange.1 fits fuel (writeValues items ++ rest) pos
      rw [isFirst] at read
      split at read
      · rw [Option.some_inj, Prod.mk.injEq] at read
        rw [read.2] at areOthers
        exact ⟨fits, fits_of_readItems items inRange.2 areOthers⟩
      · exact nomatch read

end

/-- A value is read as it was written, whatever follows it, exactly when all its parts fit. -/
theorem readValue_writeValue_iff (v : Amqp10Value) (inRange : Everywhere InRange v)
    (rest : List Int64) :
    (∃ enough, ∀ fuel ≥ enough, readValue fuel ⟨writeValue v ++ rest, 0, false⟩ =
      some (v, ⟨rest, (writeValue v).length, false⟩)) ↔ Everywhere Fits v := by
  constructor
  · rintro ⟨enough, isRead⟩
    exact fits_of_read v inRange (isRead enough (Nat.le_refl enough))
  · intro fits
    refine ⟨height v + 1, ?_⟩
    intro fuel large
    have isEnough : height v < fuel := large
    rw [readsBack v inRange fits fuel rest 0, if_pos isEnough, Nat.zero_add]

/-- A performative whose fields are a number and a nested list. -/
theorem readValue_writeValue_iff_nested :
    ∃ enough, ∀ fuel ≥ enough, readValue fuel
      ⟨writeValue (.describedVal 0x14 (.listVal [.uIntVal 5, .listVal [.intVal (-1)]])) ++ [7], 0, false⟩ =
        some (.describedVal 0x14 (.listVal [.uIntVal 5, .listVal [.intVal (-1)]]), ⟨[7],
          (writeValue (.describedVal 0x14 (.listVal [.uIntVal 5, .listVal [.intVal (-1)]]))).length,
          false⟩) := by
  apply (readValue_writeValue_iff _ _ [7]).mpr
  · exact ⟨trivial, (by decide : 2 < 2 ^ 32), trivial, ⟨(by decide : 1 < 2 ^ 32), trivial, trivial⟩, trivial⟩
  · exact ⟨⟨by decide, by decide⟩, trivial, ⟨by decide, by decide⟩,
      ⟨trivial, ⟨by decide, by decide⟩, trivial⟩, trivial⟩

/-- The length of a string of 2 ^ 32 bytes is written as zero. -/
theorem longString_notRead : ¬ ∃ enough, ∀ fuel ≥ enough,
    readValue fuel ⟨writeValue (.strVal (List.replicate (2 ^ 32) 97)) ++ [], 0, false⟩ =
      some (.strVal (List.replicate (2 ^ 32) 97),
        ⟨[], (writeValue (.strVal (List.replicate (2 ^ 32) 97))).length, false⟩) := by
  rintro ⟨enough, isRead⟩
  have noZero : Everywhere InRange (.strVal (List.replicate (2 ^ 32) 97)) := by
    intro isZero
    exact absurd (List.eq_of_mem_replicate isZero) (by decide)
  have isShort : (List.replicate (2 ^ 32) (97 : UInt8)).length < 2 ^ 32 :=
    fits_of_read _ noZero (isRead enough (Nat.le_refl enough))
  rw [List.length_replicate] at isShort
  exact Nat.lt_irrefl _ isShort

end Tinox.Amqp
