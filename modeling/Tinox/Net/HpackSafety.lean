import Tinox.Data.Accesses
import Tinox.Net.HpackBounds

/-!
# The accesses of HPACK

`Hpack.decode` with offsets of 64 bits and every access checked.  No access leaves its list, whatever
the integers of a block are.
-/

namespace Tinox.Net.HpackSafety

open Accesses Tinox.Runtime

/-- `Hpack.lookupHeader`. -/
def lookupHeader (dynTable : HpackDynTable) (index : Int64) : Outcome HpackHeader :=
  if 1 ≤ index ∧ index ≤ 61 then pure ⟨staticName index, staticValue index⟩
  else
    let dynIndex := index - 62
    if 0 ≤ dynIndex ∧ dynIndex < len dynTable.entries then elementAt dynTable.entries dynIndex
    else pure ⟨[], []⟩

/-- The loop of `add` and `setMaxSize`. -/
def evict (room : Int64) : Nat → HpackDynTable → Outcome HpackDynTable
  | 0, _ => .error .unfinished
  | steps + 1, table =>
      if table.currentSize + room > table.maxSize ∧ len table.entries > 0 then do
        let last ← elementAt table.entries (len table.entries - 1)
        evict room steps { table with
          currentSize := table.currentSize - entrySize last
          entries := table.entries.dropLast }
      else pure table

/-- `HpackDynTable.add`. -/
def add (table : HpackDynTable) (header : HpackHeader) : Outcome HpackDynTable := do
  let table ← evict (entrySize header) (table.entries.length + 1) table
  if entrySize header ≤ table.maxSize then
    pure { table with
      entries := header :: table.entries
      currentSize := table.currentSize + entrySize header }
  else pure table

/-- `HpackDynTable.setMaxSize`. -/
def setMaxSize (table : HpackDynTable) (newSize : Int64) : Outcome HpackDynTable :=
  evict 0 (table.entries.length + 1) { table with maxSize := newSize }

section Data

variable (data : List Int64)

/-- The loop of `Hpack.decodeInt`. -/
def decodeIntLoop : Nat → Int64 → Int64 → Int64 → Outcome (Int64 × Int64)
  | 0, _, _, _ => .error .unfinished
  | steps + 1, pos, value, m =>
      if pos < len data ∧ m < 63 then do
        let b ← elementAt data pos
        let value := value + ((b &&& 127) <<< m)
        if b &&& 128 = 0 then pure (value, pos + 1)
        else decodeIntLoop steps (pos + 1) value (m + 7)
      else pure (value, pos)

/-- `Hpack.decodeInt`. -/
def decodeInt (offset prefixBits : Int64) : Outcome (Int64 × Int64) :=
  if offset < 0 ∨ len data ≤ offset then pure (0, len data)
  else do
    let mask := ((1 : Int64) <<< prefixBits) - 1
    let b ← elementAt data offset
    let value := b &&& mask
    if value < mask then pure (value, offset + 1)
    else decodeIntLoop data (data.length + 1) (offset + 1) value 0

/-- The loop of `Hpack.decodeStr`. -/
def readBytes (strLen pos : Int64) : Nat → Int64 → List Int64 → Outcome (List Int64 × Int64)
  | 0, _, _ => .error .unfinished
  | steps + 1, i, bytes =>
      if i < strLen ∧ pos + i < len data then do
        let b ← elementAt data (pos + i)
        readBytes strLen pos steps (i + 1) (bytes ++ [b])
      else pure (bytes, i)

/-- `Hpack.decodeStr`. -/
def decodeStr (offset : Int64) : Outcome (CString × Int64) := do
  let lenResult ← decodeInt data offset 7
  let bytes ← readBytes data lenResult.1 lenResult.2 (data.length + 1) 0 []
  pure (tinoxBytesToString bytes.1, lenResult.2 + bytes.2)

/-- A literal field. -/
def decodeLiteral (offset prefixBits : Int64) (dynTable : HpackDynTable) :
    Outcome (HpackHeader × Int64) := do
  let nameResult ← decodeInt data offset prefixBits
  let name ←
    if nameResult.1 = 0 then decodeStr data nameResult.2
    else do
      let header ← lookupHeader dynTable nameResult.1
      pure (header.name, nameResult.2)
  let valStr ← decodeStr data name.2
  pure (⟨name.1, valStr.1⟩, valStr.2)

/-- Where the decoder stands in a block. -/
structure Decoding where
  offset : Int64
  headers : List HpackHeader
  dynTable : HpackDynTable

/-- One round of the loop of `Hpack.decode`. -/
def decodeRepresentation (d : Decoding) : Outcome Decoding := do
  let b ← elementAt data d.offset
  if b &&& 128 ≠ 0 then do
    let result ← decodeInt data d.offset 7
    let header ← lookupHeader d.dynTable result.1
    pure ⟨result.2, d.headers ++ [header], d.dynTable⟩
  else if b &&& 64 ≠ 0 then do
    let header ← decodeLiteral data d.offset 6 d.dynTable
    let dynTable ← add d.dynTable header.1
    pure ⟨header.2, d.headers ++ [header.1], dynTable⟩
  else if b &&& 32 ≠ 0 then do
    let result ← decodeInt data d.offset 5
    let dynTable ← setMaxSize d.dynTable result.1
    pure ⟨result.2, d.headers, dynTable⟩
  else do
    let header ← decodeLiteral data d.offset 4 d.dynTable
    pure ⟨header.2, d.headers ++ [header.1], d.dynTable⟩

/-- The loop of `Hpack.decode`, with the offsets at which it stands. -/
def decodeLoop : Nat → Decoding → Outcome ((List HpackHeader × HpackDynTable) × List Int64)
  | 0, _ => .error .unfinished
  | steps + 1, d =>
      if d.offset < len data then do
        let next ← decodeRepresentation data d
        let result ← decodeLoop steps next
        pure (result.1, d.offset :: result.2)
      else pure ((d.headers, d.dynTable), [d.offset])

/-- `Hpack.decode`. -/
def decode (dynTable : HpackDynTable) :
    Outcome ((List HpackHeader × HpackDynTable) × List Int64) :=
  decodeLoop data (data.length + 1) ⟨0, [], dynTable⟩

end Data

theorem lookupHeader_eq {dynTable : HpackDynTable} (inMemory : dynTable.entries.length < 2 ^ 63)
    (index : Int64) : lookupHeader dynTable index = .ok (Net.lookupHeader dynTable index) := by
  have agrees : (decide (1 ≤ index) && decide (index ≤ 61)) = true ↔ 1 ≤ index ∧ index ≤ 61 := by
    rw [Bool.and_eq_true, decide_eq_true_iff, decide_eq_true_iff]
  rw [lookupHeader, Net.lookupHeader]
  by_cases isStatic : 1 ≤ index ∧ index ≤ 61
  · rw [if_pos isStatic, if_pos (agrees.mpr isStatic)]
    rfl
  · rw [if_neg isStatic, if_neg fun both => isStatic (agrees.mp both)]
    dsimp only
    by_cases nonneg : 0 ≤ index - 62
    · rw [if_pos nonneg]
      have isIndex : Int64.ofNat (index - 62).toInt.toNat = index - 62 :=
        Int64.ofNat_toNatClampNeg _ nonneg
      have small : (index - 62).toInt.toNat < 2 ^ 63 := by
        have upper := Int64.toInt_lt (index - 62)
        omega
      have isLess := lt_len inMemory small
      rw [isIndex] at isLess
      by_cases inside : (index - 62).toInt.toNat < dynTable.entries.length
      · have isEntry := elementAt_ofNat inMemory inside
        rw [isIndex] at isEntry
        rw [if_pos ⟨nonneg, isLess.mpr inside⟩, isEntry, List.getD_eq_getElem _ _ inside]
      · rw [if_neg fun both => inside (isLess.mp both.2),
          List.getD_eq_default _ _ (Nat.le_of_not_lt inside)]
        rfl
    · rw [if_neg fun both => nonneg both.1, if_neg nonneg]
      rfl

theorem evict_eq (room : Int64) {steps : Nat} {table : HpackDynTable}
    (inMemory : table.entries.length < 2 ^ 63) (enough : table.entries.length < steps) :
    evict room steps table = .ok (table.evict room) := by
  induction steps generalizing table with
  | zero => exact absurd enough (Nat.not_lt_zero _)
  | succ steps ih =>
      have hasEntries : len table.entries > 0 ↔ table.entries ≠ [] := by
        rw [gt_iff_lt, ← List.length_pos_iff]
        exact Int64.ofNat_lt_iff_lt (by decide) inMemory
      rw [evict, HpackDynTable.evict]
      by_cases isFull : table.currentSize + room > table.maxSize
      · rw [if_pos isFull]
        by_cases some : table.entries ≠ []
        · have positive := List.length_pos_of_ne_nil some
          have isLast : len table.entries - 1 = Int64.ofNat (table.entries.length - 1) :=
            (Int64.ofNat_sub _ 1 positive).symm
          rw [if_pos ⟨isFull, hasEntries.mpr some⟩, dif_pos some, isLast,
            elementAt_ofNat inMemory (Nat.sub_lt positive Nat.one_pos), ok_bind,
            ← List.getLast_eq_getElem some]
          have isLess : table.entries.dropLast.length < table.entries.length := by
            rw [List.length_dropLast]
            exact Nat.sub_lt positive Nat.one_pos
          exact ih (Nat.lt_trans isLess inMemory)
            (Nat.lt_of_lt_of_le isLess (Nat.le_of_lt_succ enough))
        · rw [if_neg fun both => some (hasEntries.mp both.2), dif_neg some]
          rfl
      · rw [if_neg fun both => isFull both.1, if_neg isFull]
        rfl

theorem add_eq {table : HpackDynTable} (inMemory : table.entries.length < 2 ^ 63)
    (header : HpackHeader) : add table header = .ok (table.add header) := by
  rw [add, evict_eq _ inMemory (Nat.lt_succ_self _), ok_bind, HpackDynTable.add]
  split <;> rfl

theorem setMaxSize_eq {table : HpackDynTable} (inMemory : table.entries.length < 2 ^ 63)
    (newSize : Int64) : setMaxSize table newSize = .ok (table.setMaxSize newSize) :=
  @evict_eq 0 _ { table with maxSize := newSize } inMemory (Nat.lt_succ_self _)

theorem length_evict_le (room : Int64) (table : HpackDynTable) :
    (table.evict room).entries.length ≤ table.entries.length := by
  fun_induction HpackDynTable.evict room table with
  | case1 table isFull some ih =>
      rw [List.length_dropLast] at ih
      exact Nat.le_trans ih (Nat.sub_le _ _)
  | case2 | case3 => exact Nat.le_refl _

theorem length_add_le (table : HpackDynTable) (header : HpackHeader) :
    (table.add header).entries.length ≤ table.entries.length + 1 := by
  have evicted := length_evict_le (entrySize header) table
  rw [HpackDynTable.add]
  split
  · exact Nat.succ_le_succ evicted
  · exact Nat.le_succ_of_le evicted

theorem ofNat_succ (n : Nat) : Int64.ofNat n + 1 = Int64.ofNat (n + 1) :=
  (Int64.ofNat_add n 1).symm

section Data

variable {data : List Int64} (inMemory : data.length < 2 ^ 63)

include inMemory

theorem decodeIntLoop_eq {steps pos m : Nat} (inside : pos ≤ data.length) (small : m < 70)
    (enough : data.length - pos < steps) (value : Int64) :
    decodeIntLoop data steps (Int64.ofNat pos) value (Int64.ofNat m) =
      .ok ((Net.decodeIntLoop data pos value m).1,
        Int64.ofNat (Net.decodeIntLoop data pos value m).2) := by
  induction steps generalizing pos m value with
  | zero => exact absurd enough (Nat.not_lt_zero _)
  | succ steps ih =>
      have isLess := lt_len inMemory (Nat.lt_of_le_of_lt inside inMemory)
      have isShort : Int64.ofNat m < 63 ↔ m < 63 :=
        Int64.ofNat_lt_iff_lt (Nat.lt_trans small (by decide)) (by decide)
      rw [decodeIntLoop, Net.decodeIntLoop]
      by_cases more : pos < data.length
      · rw [dif_pos more]
        by_cases short : m < 63
        · rw [if_pos ⟨isLess.mpr more, isShort.mpr short⟩, if_pos short,
            elementAt_ofNat inMemory more, ok_bind]
          dsimp only
          rw [ofNat_succ]
          split
          · rfl
          · have isShift : Int64.ofNat m + 7 = Int64.ofNat (m + 7) := (Int64.ofNat_add m 7).symm
            rw [isShift]
            exact ih more (by omega) (by omega) _
        · rw [if_neg fun both => short (isShort.mp both.2), if_neg short]
          rfl
      · rw [if_neg fun both => more (isLess.mp both.1), dif_neg more]
        rfl

theorem decodeInt_eq {offset : Nat} (inside : offset ≤ data.length) (prefixBits : Int64) :
    decodeInt data (Int64.ofNat offset) prefixBits =
      .ok ((Net.decodeInt data offset prefixBits).1,
        Int64.ofNat (Net.decodeInt data offset prefixBits).2) := by
  have small := Nat.lt_of_le_of_lt inside inMemory
  have isBehind := len_le inMemory small
  have nonneg := Int64.not_lt.mpr (Int64.zero_le_ofNat_of_lt small)
  rw [decodeInt, Net.decodeInt]
  by_cases more : offset < data.length
  · have notBehind : ¬ (Int64.ofNat offset < 0 ∨ len data ≤ Int64.ofNat offset) := by
      rw [not_or, isBehind]
      exact ⟨nonneg, Nat.not_le_of_lt more⟩
    rw [if_neg notBehind, dif_pos more, elementAt_ofNat inMemory more, ok_bind]
    dsimp only
    rw [ofNat_succ]
    split
    · rfl
    · exact @decodeIntLoop_eq _ inMemory _ _ 0 more (by decide) (Nat.lt_succ_of_le (Nat.sub_le _ _)) _
  · rw [if_pos (Or.inr (isBehind.mpr (Nat.le_of_not_lt more))), dif_neg more]
    rfl

theorem readBytes_eq {strLen : Int64} {steps pos i : Nat} (inside : pos + i ≤ data.length)
    (within : i ≤ strLen.toInt.toNat) (enough : data.length - (pos + i) < steps)
    (bytes : List Int64) :
    readBytes data strLen (Int64.ofNat pos) steps (Int64.ofNat i) bytes =
      .ok (bytes ++ (data.drop (pos + i)).take (strLen.toInt.toNat - i),
        Int64.ofNat (i + ((data.drop (pos + i)).take (strLen.toInt.toNat - i)).length)) := by
  induction steps generalizing i bytes with
  | zero => exact absurd enough (Nat.not_lt_zero _)
  | succ steps ih =>
      have isLess := lt_len inMemory (Nat.lt_of_le_of_lt inside inMemory)
      have isShort : Int64.ofNat i < strLen ↔ i < strLen.toInt.toNat := by
        rw [Int64.lt_iff_toInt_lt, Int64.toInt_ofNat_of_lt (by omega), Int.lt_toNat]
      rw [readBytes, ← Int64.ofNat_add]
      by_cases goesOn : i < strLen.toInt.toNat ∧ pos + i < data.length
      · rw [if_pos ⟨isShort.mpr goesOn.1, isLess.mpr goesOn.2⟩, elementAt_ofNat inMemory goesOn.2,
          ok_bind]
        have isNext := ih goesOn.2 goesOn.1 (by omega) (bytes ++ [data[pos + i]])
        have isTaken : (data.drop (pos + i)).take (strLen.toInt.toNat - i) =
            data[pos + i] :: (data.drop (pos + (i + 1))).take (strLen.toInt.toNat - (i + 1)) := by
          have isMore : strLen.toInt.toNat - i = strLen.toInt.toNat - (i + 1) + 1 := by omega
          rw [isMore, List.drop_eq_getElem_cons goesOn.2, List.take_succ_cons, Nat.add_assoc]
        rw [ofNat_succ, isTaken, List.length_cons]
        rw [List.append_assoc, List.singleton_append, Nat.add_right_comm i 1] at isNext
        exact isNext
      · rw [if_neg fun both => goesOn ⟨isShort.mp both.1, isLess.mp both.2⟩]
        have isEmpty : (data.drop (pos + i)).take (strLen.toInt.toNat - i) = [] := by
          rw [← List.length_eq_zero_iff, List.length_take, List.length_drop]
          omega
        rw [isEmpty, List.append_nil]
        rfl

theorem decodeStr_eq {offset : Nat} (inside : offset ≤ data.length) :
    decodeStr data (Int64.ofNat offset) =
      .ok ((Net.decodeStr data offset).1, Int64.ofNat (Net.decodeStr data offset).2) := by
  have bounds := decodeInt_bounds inside 7
  have isRead := @readBytes_eq _ inMemory (Net.decodeInt data offset 7).1 (data.length + 1)
    (Net.decodeInt data offset 7).2 0 bounds.2 (Nat.zero_le _) (Nat.lt_succ_of_le (Nat.sub_le _ _)) []
  have isStart : Int64.ofNat 0 = 0 := rfl
  rw [isStart, Nat.add_zero, Nat.sub_zero, Nat.zero_add, List.nil_append] at isRead
  rw [decodeStr, decodeInt_eq inMemory inside, ok_bind, isRead, ok_bind, ← Int64.ofNat_add]
  rfl

theorem decodeLiteral_eq {offset : Nat} (inside : offset ≤ data.length) (prefixBits : Int64)
    {dynTable : HpackDynTable} (tableInMemory : dynTable.entries.length < 2 ^ 63) :
    decodeLiteral data (Int64.ofNat offset) prefixBits dynTable =
      .ok ((Net.decodeLiteral data offset prefixBits dynTable).1,
        Int64.ofNat (Net.decodeLiteral data offset prefixBits dynTable).2) := by
  have isIndex := decodeInt_bounds inside prefixBits
  rw [decodeLiteral, decodeInt_eq inMemory inside, ok_bind, Net.decodeLiteral]
  dsimp only
  split
  · rw [decodeStr_eq inMemory isIndex.2, ok_bind]
    dsimp only
    rw [decodeStr_eq inMemory (decodeStr_bounds isIndex.2).2, ok_bind]
    rfl
  · rw [lookupHeader_eq tableInMemory, ok_bind]
    change (decodeStr data (Int64.ofNat _) >>= _) = _
    rw [decodeStr_eq inMemory isIndex.2, ok_bind]
    rfl

theorem decodeRepresentation_eq {offset : Nat} (inside : offset < data.length)
    (headers : List HpackHeader) {dynTable : HpackDynTable}
    (tableInMemory : dynTable.entries.length < 2 ^ 63) :
    decodeRepresentation data ⟨Int64.ofNat offset, headers, dynTable⟩ =
      .ok ⟨Int64.ofNat (readHeaderField data offset inside dynTable).next,
        headers ++ (readHeaderField data offset inside dynTable).header.toList,
        (readHeaderField data offset inside dynTable).change.apply dynTable⟩ := by
  have within := Nat.le_of_lt inside
  rw [decodeRepresentation, elementAt_ofNat inMemory inside, ok_bind, readHeaderField]
  dsimp only
  split
  · rw [decodeInt_eq inMemory within, ok_bind, lookupHeader_eq tableInMemory]
    rfl
  · split
    · rw [decodeLiteral_eq inMemory within _ tableInMemory, ok_bind]
      dsimp only
      rw [add_eq tableInMemory]
      rfl
    · split
      · rw [decodeInt_eq inMemory within, ok_bind]
        dsimp only
        rw [setMaxSize_eq tableInMemory, Option.toList_none, List.append_nil]
        rfl
      · rw [decodeLiteral_eq inMemory within _ tableInMemory, ok_bind]
        rfl

omit inMemory in
theorem readHeaderField_next_le {offset : Nat} (inside : offset < data.length)
    (dynTable : HpackDynTable) :
    (readHeaderField data offset inside dynTable).next ≤ data.length := by
  rw [readHeaderField]
  split
  · exact (lt_decodeInt inside 7).2
  · split
    · exact (lt_decodeLiteral inside 6 dynTable).2
    · split
      · exact (lt_decodeInt inside 5).2
      · exact (lt_decodeLiteral inside 4 dynTable).2

end Data

theorem length_apply_le (change : Change) (dynTable : HpackDynTable) :
    (change.apply dynTable).entries.length ≤ dynTable.entries.length + 1 := by
  cases change with
  | keep => exact Nat.le_succ _
  | add header => exact length_add_le dynTable header
  | setMaxSize newSize => exact Nat.le_succ_of_le (length_evict_le 0 _)

/-- From an offset on the loop ends without a fault, with the result of the decoder.  Each field has at
least one byte and adds at most one entry. -/
theorem decodeLoop_spec {data : List Int64} {steps offset : Nat} (inside : offset ≤ data.length)
    (enough : data.length - offset < steps) (headers : List HpackHeader) {dynTable : HpackDynTable}
    (inMemory : data.length - offset + dynTable.entries.length < 2 ^ 63)
    (dataInMemory : data.length < 2 ^ 63) :
    ∃ places : List Nat, decodeLoop data steps ⟨Int64.ofNat offset, headers, dynTable⟩ =
        .ok (Net.decodeLoop data offset headers dynTable, places.map Int64.ofNat) ∧
      places.Pairwise (· < ·) ∧ ∀ place ∈ places, offset ≤ place ∧ place ≤ data.length := by
  induction steps generalizing offset headers dynTable with
  | zero => exact absurd enough (Nat.not_lt_zero _)
  | succ steps ih =>
      have isLess := lt_len dataInMemory (Nat.lt_of_le_of_lt inside dataInMemory)
      rw [decodeLoop]
      by_cases more : offset < data.length
      · have isLater := lt_readHeaderField more dynTable
        have isInside := readHeaderField_next_le more dynTable
        have grows := length_apply_le (readHeaderField data offset more dynTable).change dynTable
        rw [if_pos (isLess.mpr more), decodeRepresentation_eq dataInMemory more headers (by omega),
          ok_bind, decodeLoop_readHeaderField more]
        rcases @ih _ isInside (by omega) _
          ((readHeaderField data offset more dynTable).change.apply dynTable) (by omega) with
          ⟨places, isDecoded, increases, within⟩
        rw [isDecoded, ok_bind]
        refine ⟨offset :: places, rfl, List.pairwise_cons.mpr ⟨?_, increases⟩, ?_⟩
        · intro place isPlace
          exact Nat.lt_of_lt_of_le isLater (within place isPlace).1
        · intro place isPlace
          rcases List.mem_cons.mp isPlace with rfl | isPlace
          · exact ⟨Nat.le_refl _, inside⟩
          · have isWithin := within place isPlace
            exact ⟨Nat.le_trans (Nat.le_of_lt isLater) isWithin.1, isWithin.2⟩
      · rw [if_neg fun goesOn => more (isLess.mp goesOn), Net.decodeLoop, dif_neg more]
        refine ⟨[offset], rfl, List.pairwise_singleton _ _, ?_⟩
        intro place isPlace
        rw [List.mem_singleton.mp isPlace]
        exact ⟨Nat.le_refl _, inside⟩

/-- `Hpack.decode` ends without an access outside of a list, with the result of the decoder, for every
block and every table.  Its offset increases with every representation and never exceeds the length of
the block. -/
theorem decode_safe (data : List Int64) (dynTable : HpackDynTable)
    (inMemory : data.length + dynTable.entries.length < 2 ^ 63) :
    ∃ offsets, decode data dynTable = .ok (Net.decode data dynTable, offsets) ∧
      offsets.Pairwise (· < ·) ∧ ∀ offset ∈ offsets, 0 ≤ offset ∧ offset ≤ len data := by
  have dataInMemory := Nat.lt_of_le_of_lt (Nat.le_add_right _ _) inMemory
  rcases decodeLoop_spec (Nat.zero_le data.length) (Nat.lt_succ_self data.length) []
    inMemory dataInMemory with ⟨places, isDecoded, increases, within⟩
  have small : ∀ place ∈ places, place < 2 ^ 63 := fun place isPlace =>
    Nat.lt_of_le_of_lt (within place isPlace).2 dataInMemory
  refine ⟨places.map Int64.ofNat, isDecoded, ?_, ?_⟩
  · rw [List.pairwise_map]
    apply List.Pairwise.imp_of_mem _ increases
    intro place later isPlace isLater less
    exact (Int64.ofNat_lt_iff_lt (small place isPlace) (small later isLater)).mpr less
  · intro offset isOffset
    rcases List.mem_map.mp isOffset with ⟨place, isPlace, rfl⟩
    exact ⟨Int64.zero_le_ofNat_of_lt (small place isPlace),
      (Int64.ofNat_le_iff_le (small place isPlace) dataInMemory).mpr (within place isPlace).2⟩

/-- A size update and an index whose integers wrap around. -/
def wrapping : List Int64 :=
  0x3f :: 0xe1 :: List.replicate 18 0xff

theorem decode_safe_wrapping :
    ∃ offsets, decode wrapping (HpackDynTable.new 4096) =
        .ok (Net.decode wrapping (HpackDynTable.new 4096), offsets) ∧
      offsets.Pairwise (· < ·) ∧ ∀ offset ∈ offsets, 0 ≤ offset ∧ offset ≤ 20 :=
  decode_safe wrapping (HpackDynTable.new 4096) (by decide)

end Tinox.Net.HpackSafety
