import Mathlib.Tactic.Ring
import Tinox.Net.Hpack

/-!
# Encoder and decoder in step

A header list that is encoded is decoded again, and both ends of a connection leave their
tables in the same state, block after block.
-/

namespace Tinox.Net

open Tinox.Runtime

/-- A header whose texts are C strings that memory can hold. -/
structure IsHeader (header : HpackHeader) : Prop where
  name : 0 ∉ header.name
  value : 0 ∉ header.value
  shortName : header.name.length < 2 ^ 63
  shortValue : header.value.length < 2 ^ 63

/-- Header lists encoded one after the other: each block, and the table behind it. -/
def encodeBlocks (dynTable : HpackDynTable) :
    List (List HpackHeader) → List (List Int64 × HpackDynTable)
  | [] => []
  | headers :: lists =>
      let result := encode headers dynTable
      result :: encodeBlocks result.2 lists

/-- Blocks decoded one after the other: the headers of each, and the table behind it. -/
def decodeBlocks (dynTable : HpackDynTable) :
    List (List Int64) → List (List HpackHeader × HpackDynTable)
  | [] => []
  | block :: blocks =>
      let result := decode block dynTable
      result :: decodeBlocks result.2 blocks

theorem encodeIntLoop_ofNat {n : Nat} (small : n < 2 ^ 63) :
    encodeIntLoop (Int64.ofNat n) =
      if 128 ≤ n then Int64.ofNat (n % 128 + 128) :: encodeIntLoop (Int64.ofNat (n / 128))
      else [Int64.ofNat n] := by
  have isLarge : (128 : Int64) ≤ Int64.ofNat n ↔ 128 ≤ n := @ofNat_le 128 n (by decide) small
  rw [encodeIntLoop]
  by_cases large : 128 ≤ n
  · rw [if_pos (isLarge.mpr large), if_pos large, Int64.ofNat_add, Int64.ofNat_mod small (by decide),
      Int64.ofNat_div small (by decide)]
    rfl
  · rw [if_neg (fun isMore => large (isLarge.mp isMore)), if_neg large]

theorem group_shifted {x : Int64} {n m : Nat} (isGroup : bits x % 128 = n) (place : m < 63)
    (small : n * 2 ^ m < 2 ^ 63) : (x &&& 127) <<< Int64.ofNat m = Int64.ofNat (n * 2 ^ m) := by
  have isShift : ((Int64.ofNat m).toBitVec.smod 64).toNat = m := by
    have all : ∀ k : Fin 63, ((Int64.ofNat k).toBitVec.smod 64).toNat = k := by decide
    exact all ⟨m, place⟩
  have isBits : bits (x &&& 127) = n := by rw [bits_and_127, isGroup]
  apply bits_inj.mp
  rw [bits_shiftLeft isShift (by rw [isBits]; omega), isBits, bits_ofNat (by omega)]

set_option maxRecDepth 1024 in
theorem group_goesOn : ∀ n : Fin 256, (Int64.ofNat n &&& 128 = 0) ↔ n.val < 128 := by
  decide

theorem decodeIntLoop_at (before rest : List Int64) (b value : Int64) {m : Nat} (place : m < 63) :
    decodeIntLoop (before ++ b :: rest) before.length value m =
      if b &&& 128 = 0 then (value + ((b &&& 127) <<< Int64.ofNat m), before.length + 1)
      else decodeIntLoop (before ++ b :: rest) (before.length + 1)
        (value + ((b &&& 127) <<< Int64.ofNat m)) (m + 7) := by
  have inside : before.length < (before ++ b :: rest).length := by
    rw [List.length_append, List.length_cons]
    omega
  rw [decodeIntLoop, dif_pos inside, if_pos place]
  simp only [List.getElem_append_right (Nat.le_refl _), Nat.sub_self, List.getElem_cons_zero]

/-- The loop of the decoder reads the groups that the loop of the encoder writes. -/
theorem decodeIntLoop_encodeIntLoop {n m : Nat} (place : m < 63) (small : n * 2 ^ m < 2 ^ 63)
    (before rest : List Int64) (value : Int64) :
    decodeIntLoop (before ++ (encodeIntLoop (Int64.ofNat n) ++ rest)) before.length value m =
      (value + Int64.ofNat (n * 2 ^ m), before.length + (encodeIntLoop (Int64.ofNat n)).length) := by
  induction n using Nat.strongRecOn generalizing m before value with
  | _ n ih =>
      have within : n ≤ n * 2 ^ m := Nat.le_mul_of_pos_right n (Nat.two_pow_pos m)
      rw [encodeIntLoop_ofNat (by omega)]
      by_cases large : 128 ≤ n
      · have isByte : n % 128 + 128 < 256 := by omega
        have isSplit : n % 128 * 2 ^ m + n / 128 * 2 ^ (m + 7) = n * 2 ^ m := by
          calc n % 128 * 2 ^ m + n / 128 * 2 ^ (m + 7) = (n % 128 + 128 * (n / 128)) * 2 ^ m := by ring
            _ = n * 2 ^ m := by rw [Nat.mod_add_div]
        have isGroup : bits (Int64.ofNat (n % 128 + 128)) % 128 = n % 128 := by
          rw [bits_ofNat (by omega)]
          omega
        have goesOn : ¬ Int64.ofNat (n % 128 + 128) &&& 128 = 0 := by
          rw [group_goesOn ⟨n % 128 + 128, isByte⟩]
          exact Nat.not_lt.mpr (Nat.le_add_left 128 _)
        -- nine groups are enough for every length
        have nextPlace : m + 7 < 63 := by
          by_contra high
          have isHigh : 2 ^ 56 ≤ 2 ^ m := Nat.pow_le_pow_right (by decide) (by omega)
          have isLarge : 128 * 2 ^ 56 ≤ n * 2 ^ m := Nat.mul_le_mul large isHigh
          omega
        have read := ih (n / 128) (by omega) nextPlace (by omega)
          (before ++ [Int64.ofNat (n % 128 + 128)]) (value + Int64.ofNat (n % 128 * 2 ^ m))
        rw [List.length_append, List.length_singleton, List.append_assoc, List.singleton_append] at read
        rw [if_pos large, List.cons_append, decodeIntLoop_at _ _ _ _ place, if_neg goesOn,
          group_shifted isGroup place (by omega), read, Int64.add_assoc, ← Int64.ofNat_add, isSplit,
          List.length_cons, Nat.add_assoc, Nat.add_comm 1]
      · have isGroup : bits (Int64.ofNat n) % 128 = n := by
          rw [bits_ofNat (by omega)]
          omega
        have isLast : Int64.ofNat n &&& 128 = 0 :=
          (group_goesOn ⟨n, by omega⟩).mpr (Nat.lt_of_not_le large)
        rw [if_neg large, List.singleton_append, decodeIntLoop_at _ _ _ _ place, if_pos isLast,
          group_shifted isGroup place small]
        rfl

theorem prefix_length : ∀ n : Fin 128, Int64.ofNat n &&& 127 = Int64.ofNat n := by
  decide

theorem decodeInt_at (before rest : List Int64) (b prefixBits : Int64) :
    decodeInt (before ++ b :: rest) before.length prefixBits =
      if b &&& ((1 : Int64) <<< prefixBits - 1) < (1 : Int64) <<< prefixBits - 1 then
        (b &&& ((1 : Int64) <<< prefixBits - 1), before.length + 1)
      else decodeIntLoop (before ++ b :: rest) (before.length + 1)
        (b &&& ((1 : Int64) <<< prefixBits - 1)) 0 := by
  have inside : before.length < (before ++ b :: rest).length := by
    rw [List.length_append, List.length_cons]
    omega
  rw [decodeInt, dif_pos inside]
  simp only [List.getElem_append_right (Nat.le_refl _), Nat.sub_self, List.getElem_cons_zero]

theorem decodeInt_length {n : Nat} (small : n < 2 ^ 63) (before rest : List Int64) :
    decodeInt (before ++ (encodeInt (Int64.ofNat n) 7 0 ++ rest)) before.length 7 =
      (Int64.ofNat n, before.length + (encodeInt (Int64.ofNat n) 7 0).length) := by
  have isShort : Int64.ofNat n < 127 ↔ n < 127 := @ofNat_lt n 127 small (by decide)
  have isMask : (1 : Int64) <<< 7 - 1 = 127 := by decide
  rw [encodeInt]
  simp only [isMask]
  by_cases short : n < 127
  · have isPrefix := prefix_length ⟨n, by omega⟩
    dsimp only at isPrefix
    rw [if_pos (isShort.mpr short), Int64.zero_or, List.singleton_append, decodeInt_at, isMask,
      isPrefix, if_pos (isShort.mpr short)]
    rfl
  · have long : Int64.ofNat n - 127 = Int64.ofNat (n - 127) := (@Int64.ofNat_sub n 127 (by omega)).symm
    have read := @decodeIntLoop_encodeIntLoop (n - 127) 0 (by decide) (by omega) (before ++ [127]) rest 127
    have isFirst : (0 : Int64) ||| 127 = 127 := by decide
    have isPrefix : (127 : Int64) &&& 127 = 127 := by decide
    have isWhole : (127 : Int64) + Int64.ofNat (n - 127) = Int64.ofNat n := by
      rw [← long, Int64.add_comm, Int64.sub_add_cancel]
    rw [List.length_append, List.length_singleton, List.append_assoc, List.singleton_append, Nat.pow_zero,
      Nat.mul_one, isWhole] at read
    rw [if_neg (fun isLess => short (isShort.mp isLess)), isFirst, long, List.cons_append, decodeInt_at,
      isMask, isPrefix, if_neg (by decide), read, List.length_cons, Nat.add_assoc, Nat.add_comm 1]

theorem decodeStr_encodeStr {s : CString} (noZero : 0 ∉ s) (small : s.length < 2 ^ 63)
    (before rest : List Int64) :
    decodeStr (before ++ (encodeStr s ++ rest)) before.length =
      (s, before.length + (encodeStr s).length) := by
  have isLength := decodeInt_length small before (s.map byteValue ++ rest)
  have isBytes : (s.map byteValue).map lowByte = s := by
    rw [List.map_map]
    calc s.map (lowByte ∘ byteValue) = s.map id :=
          List.map_congr_left fun b _ => lowByte_byteValue b
      _ = s := List.map_id s
  have isData : before ++ (encodeStr s ++ rest) =
      (before ++ encodeInt (Int64.ofNat s.length) 7 0) ++ (s.map byteValue ++ rest) := by
    rw [encodeStr, map_charCodeAt, List.append_assoc, List.append_assoc]
  rw [← List.append_assoc, ← isData] at isLength
  rw [decodeStr, isLength, isData, ← List.length_append]
  dsimp only
  rw [List.drop_left, Int64.toInt_ofNat_of_lt small, Int.toNat_natCast, List.take_left' (by simp),
    tinoxBytesToString, isBytes, cString_eq_iff.mpr noZero, encodeStr, map_charCodeAt,
    List.length_append, List.length_append, Nat.add_assoc]

theorem findStaticLoop_spec (name value : CString) {nameMatch : Int64} {indices : List Int64}
    (isMatch : nameMatch = -1 ∨ nameMatch ∈ (List.range' 1 61).map Int64.ofNat ∧
      staticName nameMatch = name)
    (inside : indices ⊆ (List.range' 1 61).map Int64.ofNat) :
    findStaticLoop name value nameMatch indices = -1 ∨
      findStaticLoop name value nameMatch indices ∈ (List.range' 1 61).map Int64.ofNat ∧
        staticName (findStaticLoop name value nameMatch indices) = name := by
  induction indices generalizing nameMatch with
  | nil => exact isMatch
  | cons i indices ih =>
      rw [List.cons_subset] at inside
      rw [findStaticLoop]
      by_cases isName : staticName i = name
      · rw [if_pos isName]
        by_cases isValue : staticValue i = value
        · rw [if_pos isValue]
          exact Or.inr ⟨inside.1, isName⟩
        · rw [if_neg isValue]
          apply ih _ inside.2
          by_cases isFirst : nameMatch = -1
          · rw [if_pos isFirst]
            exact Or.inr ⟨inside.1, isName⟩
          · rw [if_neg isFirst]
            exact isMatch
      · rw [if_neg isName]
        exact ih isMatch inside.2

theorem findStatic_spec (name value : CString) :
    findStatic name value = -1 ∨
      ∃ i : Fin 62, findStatic name value = Int64.ofNat i ∧ 0 < i.val ∧
        staticName (Int64.ofNat i) = name := by
  rcases findStaticLoop_spec name value (Or.inl rfl) (List.Subset.refl _) with none | ⟨member, isName⟩
  · exact Or.inl none
  · rcases List.mem_map.mp member with ⟨i, inside, isIndex⟩
    rw [List.mem_range'_1] at inside
    refine Or.inr ⟨⟨i, by omega⟩, isIndex.symm, inside.1, ?_⟩
    rw [isIndex]
    exact isName

theorem lookupHeader_static : ∀ i : Fin 62, 0 < i.val → ∀ dynTable : HpackDynTable,
    lookupHeader dynTable (Int64.ofNat i) = ⟨staticName (Int64.ofNat i), staticValue (Int64.ofNat i)⟩ := by
  intro i positive dynTable
  have inside : ∀ i : Fin 62, 0 < i.val →
      (decide (1 ≤ Int64.ofNat i) && decide (Int64.ofNat i ≤ 61)) = true := by decide
  rw [lookupHeader, if_pos (inside i positive)]

theorem indexed_byte : ∀ i : Fin 62, encodeInt (Int64.ofNat i) 7 128 = [Int64.ofNat (128 + i)] ∧
    Int64.ofNat (128 + i) &&& 128 ≠ 0 ∧ Int64.ofNat (128 + i) &&& 127 = Int64.ofNat i ∧
    Int64.ofNat i < 127 := by
  decide

theorem literal_byte : ∀ i : Fin 62, encodeInt (Int64.ofNat i) 6 64 = [Int64.ofNat (64 + i)] ∧
    Int64.ofNat (64 + i) &&& 128 = 0 ∧ Int64.ofNat (64 + i) &&& 64 ≠ 0 ∧
    Int64.ofNat (64 + i) &&& 63 = Int64.ofNat i ∧ Int64.ofNat i < 63 := by
  decide

theorem decodeLoop_at (before rest : List Int64) (b : Int64) (headers : List HpackHeader)
    (dynTable : HpackDynTable) :
    decodeLoop (before ++ b :: rest) before.length headers dynTable =
      if b &&& 128 ≠ 0 then
        decodeLoop (before ++ b :: rest) (decodeInt (before ++ b :: rest) before.length 7).2
          (headers ++ [lookupHeader dynTable (decodeInt (before ++ b :: rest) before.length 7).1]) dynTable
      else if b &&& 64 ≠ 0 then
        decodeLoop (before ++ b :: rest) (decodeLiteral (before ++ b :: rest) before.length 6 dynTable).2
          (headers ++ [(decodeLiteral (before ++ b :: rest) before.length 6 dynTable).1])
          (dynTable.add (decodeLiteral (before ++ b :: rest) before.length 6 dynTable).1)
      else if b &&& 32 ≠ 0 then
        decodeLoop (before ++ b :: rest) (decodeInt (before ++ b :: rest) before.length 5).2 headers
          (dynTable.setMaxSize (decodeInt (before ++ b :: rest) before.length 5).1)
      else
        decodeLoop (before ++ b :: rest) (decodeLiteral (before ++ b :: rest) before.length 4 dynTable).2
          (headers ++ [(decodeLiteral (before ++ b :: rest) before.length 4 dynTable).1]) dynTable := by
  have inside : before.length < (before ++ b :: rest).length := by
    rw [List.length_append, List.length_cons]
    omega
  rw [decodeLoop, dif_pos inside]
  simp only [List.getElem_append_right (Nat.le_refl _), Nat.sub_self, List.getElem_cons_zero]

theorem decodeLiteral_encoded {h : HpackHeader} (isHeader : IsHeader h) {i : Fin 62}
    (isName : 0 < i.val → staticName (Int64.ofNat i) = h.name) (before rest : List Int64)
    (dynTable : HpackDynTable) :
    decodeLiteral (before ++ (encodeInt (Int64.ofNat i) 6 64 ++
        ((if Int64.ofNat i = 0 then encodeStr h.name else []) ++ (encodeStr h.value ++ rest))))
        before.length 6 dynTable =
      (h, before.length + (encodeInt (Int64.ofNat i) 6 64 ++
        ((if Int64.ofNat i = 0 then encodeStr h.name else []) ++ encodeStr h.value)).length) := by
  rcases literal_byte i with ⟨isByte, _, _, isIndex, small⟩
  have isMask : (1 : Int64) <<< 6 - 1 = 63 := by decide
  rw [isByte, List.singleton_append, List.singleton_append, decodeLiteral, decodeInt_at, isMask, isIndex,
    if_pos small]
  dsimp only
  by_cases isNew : Int64.ofNat i = 0
  · have readName := decodeStr_encodeStr isHeader.name isHeader.shortName
      (before ++ [Int64.ofNat (64 + i)]) (encodeStr h.value ++ rest)
    have readValue := decodeStr_encodeStr isHeader.value isHeader.shortValue
      (before ++ [Int64.ofNat (64 + i)] ++ encodeStr h.name) rest
    rw [List.append_assoc, List.singleton_append, List.length_append, List.length_singleton] at readName
    rw [List.append_assoc, List.append_assoc, List.singleton_append, List.length_append,
      List.length_append, List.length_singleton] at readValue
    simp only [if_pos isNew]
    rw [readName, readValue, List.length_cons, List.length_append]
    congr 1
    omega
  · have positive : 0 < i.val := by
      rcases Nat.eq_zero_or_pos i.val with zero | positive
      · rw [zero] at isNew
        exact absurd rfl isNew
      · exact positive
    have readValue := decodeStr_encodeStr isHeader.value isHeader.shortValue
      (before ++ [Int64.ofNat (64 + i)]) rest
    rw [List.append_assoc, List.singleton_append, List.length_append, List.length_singleton] at readValue
    simp only [if_neg isNew, List.nil_append]
    rw [readValue, lookupHeader_static i positive, isName positive, List.length_cons]
    congr 1
    omega

/-- A header list is decoded as it was encoded, and the decoder's table ends as the encoder's. -/
theorem decodeLoop_encode {headers : List HpackHeader} (valid : ∀ h ∈ headers, IsHeader h)
    (before : List Int64) (done : List HpackHeader) (dynTable : HpackDynTable) :
    decodeLoop (before ++ (encode headers dynTable).1) before.length done dynTable =
      (done ++ headers, (encode headers dynTable).2) := by
  induction headers generalizing before done dynTable with
  | nil =>
      rw [encode, List.append_nil, List.append_nil, decodeLoop, dif_neg (Nat.lt_irrefl _)]
  | cons h headers ih =>
      rw [List.forall_mem_cons] at valid
      rw [encode]
      dsimp only
      split
      next isFull =>
        rw [Bool.and_eq_true, decide_eq_true_iff, beq_iff_eq] at isFull
        rcases findStatic_spec h.name h.value with none | ⟨i, isIndex, positive, isName⟩
        · rw [none] at isFull
          exact absurd isFull.1 (by decide)
        · have isHeader : lookupHeader dynTable (Int64.ofNat i) = h := by
            rw [lookupHeader_static i positive, isName, ← isIndex, isFull.2]
          have isMask : (1 : Int64) <<< 7 - 1 = 127 := by decide
          rcases indexed_byte i with ⟨isByte, isIndexed, isBits, small⟩
          have later := ih valid.2 (before ++ [Int64.ofNat (128 + i)]) (done ++ [h]) dynTable
          rw [List.append_assoc, List.singleton_append, List.length_append, List.length_singleton,
            List.append_assoc, List.singleton_append] at later
          rw [isIndex, isByte, List.singleton_append, decodeLoop_at, if_pos isIndexed, decodeInt_at, isMask,
            isBits, if_pos small, isHeader]
          exact later
      next isLiteral =>
        have isPlace : ∃ i : Fin 62, (if 0 < findStatic h.name h.value then findStatic h.name h.value
            else 0) = Int64.ofNat i ∧ (0 < i.val → staticName (Int64.ofNat i) = h.name) := by
          rcases findStatic_spec h.name h.value with none | ⟨i, isIndex, positive, isName⟩
          · exact ⟨0, by rw [none]; rfl, fun positive => absurd positive (Nat.lt_irrefl 0)⟩
          · refine ⟨i, ?_, fun _ => isName⟩
            have all : ∀ i : Fin 62, 0 < i.val → 0 < Int64.ofNat i := by decide
            rw [isIndex, if_pos (all i positive)]
        rcases isPlace with ⟨i, isIndex, isName⟩
        rcases literal_byte i with ⟨isByte, notIndexed, isIncremental, _, _⟩
        rw [isIndex]
        generalize isBlock : encodeInt (Int64.ofNat i) 6 64 ++
          ((if Int64.ofNat i = 0 then encodeStr h.name else []) ++ encodeStr h.value) = block
        have read := decodeLiteral_encoded valid.1 isName before (encode headers (dynTable.add h)).1 dynTable
        have later := ih valid.2 (before ++ block) (done ++ [h]) (dynTable.add h)
        have isData : encodeInt (Int64.ofNat i) 6 64 ++
            (if Int64.ofNat i = 0 then encodeStr h.name else []) ++ encodeStr h.value ++
            (encode headers (dynTable.add h)).1 = encodeInt (Int64.ofNat i) 6 64 ++
            ((if Int64.ofNat i = 0 then encodeStr h.name else []) ++ (encodeStr h.value ++
            (encode headers (dynTable.add h)).1)) := by
          simp only [List.append_assoc]
        have isWhole : encodeInt (Int64.ofNat i) 6 64 ++
            ((if Int64.ofNat i = 0 then encodeStr h.name else []) ++ (encodeStr h.value ++
            (encode headers (dynTable.add h)).1)) = block ++ (encode headers (dynTable.add h)).1 := by
          rw [← isBlock]
          simp only [List.append_assoc]
        have startsWith : ∃ more, block ++ (encode headers (dynTable.add h)).1 =
            Int64.ofNat (64 + i) :: more := by
          rw [← isBlock, isByte]
          exact ⟨_, rfl⟩
        rw [isBlock, isWhole] at read
        rw [List.append_assoc, List.length_append, List.append_assoc, List.singleton_append] at later
        rw [isData, isWhole]
        rcases startsWith with ⟨more, isMore⟩
        rw [isMore] at read later ⊢
        rw [decodeLoop_at, if_neg (not_not.mpr notIndexed), if_pos isIncremental, read]
        exact later

theorem decode_encode {headers : List HpackHeader} (valid : ∀ h ∈ headers, IsHeader h)
    (dynTable : HpackDynTable) :
    decode (encode headers dynTable).1 dynTable = (headers, (encode headers dynTable).2) :=
  decodeLoop_encode valid [] [] dynTable

theorem decodeBlocks_encodeBlocks {lists : List (List HpackHeader)}
    (valid : ∀ headers ∈ lists, ∀ h ∈ headers, IsHeader h) (dynTable : HpackDynTable) :
    decodeBlocks dynTable ((encodeBlocks dynTable lists).map Prod.fst) =
      lists.zip ((encodeBlocks dynTable lists).map Prod.snd) := by
  induction lists generalizing dynTable with
  | nil => rfl
  | cons headers lists ih =>
      rw [List.forall_mem_cons] at valid
      rw [encodeBlocks, List.map_cons, List.map_cons, List.zip_cons_cons, decodeBlocks,
        decode_encode valid.1, ih valid.2]

/-- Both ends of a connection start with the same table: each header list is decoded as it was
encoded, and behind each block the two tables are equal. -/
theorem encoder_decoder_inStep (m : Int64) (lists : List (List HpackHeader))
    (valid : ∀ headers ∈ lists, ∀ h ∈ headers, IsHeader h) :
    decodeBlocks (HpackDynTable.new m) ((encodeBlocks (HpackDynTable.new m) lists).map Prod.fst) =
      lists.zip ((encodeBlocks (HpackDynTable.new m) lists).map Prod.snd) :=
  decodeBlocks_encodeBlocks valid _

/-- Two blocks on a table that holds one entry: the second header evicts the first. -/
theorem encoder_decoder_inStep_evicting :
    decodeBlocks (HpackDynTable.new 50) ((encodeBlocks (HpackDynTable.new 50)
        [[⟨[120], [49]⟩, ⟨literal ":status", literal "200"⟩], [⟨literal "via", [121]⟩]]).map Prod.fst) =
      [([⟨[120], [49]⟩, ⟨literal ":status", literal "200"⟩], ⟨[⟨[120], [49]⟩], 50, 34⟩),
        ([⟨literal "via", [121]⟩], ⟨[⟨literal "via", [121]⟩], 50, 36⟩)] := by
  rw [encoder_decoder_inStep]
  · decide +kernel
  · intro headers member h isHeader
    have all : ∀ headers ∈ ([[⟨[120], [49]⟩, ⟨literal ":status", literal "200"⟩],
        [⟨literal "via", [121]⟩]] : List (List HpackHeader)), ∀ h ∈ headers,
        0 ∉ h.name ∧ 0 ∉ h.value ∧ h.name.length < 2 ^ 63 ∧ h.value.length < 2 ^ 63 := by decide
    rcases all headers member h isHeader with ⟨name, value, shortName, shortValue⟩
    exact ⟨name, value, shortName, shortValue⟩

end Tinox.Net
