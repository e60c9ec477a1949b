import Tinox.Net.HpackRoundTrip

/-!
# The size of the dynamic table

The table counts its size exactly and stays within the size that it was made with, as long as no
size update in a block asks for more.
-/

namespace Tinox.Net

open Tinox.Runtime

/-- What a field of a block does to the table. -/
inductive Change where
  | keep
  | add (header : HpackHeader)
  | setMaxSize (newSize : Int64)
  deriving DecidableEq

def Change.apply (dynTable : HpackDynTable) : Change → HpackDynTable
  | .keep => dynTable
  | .add header => dynTable.add header
  | .setMaxSize newSize => dynTable.setMaxSize newSize

/-- A field of a block: the header that is decoded, what happens to the table, and where the next
field is. -/
structure HeaderField where
  header : Option HpackHeader
  change : Change
  next : Nat
  deriving DecidableEq

/-- One round of the loop of `Hpack.decode`. -/
def readHeaderField (data : List Int64) (offset : Nat) (inside : offset < data.length)
    (dynTable : HpackDynTable) : HeaderField :=
  if data[offset] &&& 128 ≠ 0 then
    let result := decodeInt data offset 7
    ⟨some (lookupHeader dynTable result.1), .keep, result.2⟩
  else if data[offset] &&& 64 ≠ 0 then
    let header := decodeLiteral data offset 6 dynTable
    ⟨some header.1, .add header.1, header.2⟩
  else if data[offset] &&& 32 ≠ 0 then
    let result := decodeInt data offset 5
    ⟨none, .setMaxSize result.1, result.2⟩
  else
    let header := decodeLiteral data offset 4 dynTable
    ⟨some header.1, .keep, header.2⟩

theorem lt_readHeaderField {data : List Int64} {offset : Nat} (inside : offset < data.length)
    (dynTable : HpackDynTable) : offset < (readHeaderField data offset inside dynTable).next := by
  rw [readHeaderField]
  split
  · exact (lt_decodeInt inside 7).1
  · split
    · exact (lt_decodeLiteral inside 6 dynTable).1
    · split
      · exact (lt_decodeInt inside 5).1
      · exact (lt_decodeLiteral inside 4 dynTable).1

theorem decodeLoop_readHeaderField {data : List Int64} {offset : Nat} (inside : offset < data.length)
    (headers : List HpackHeader) (dynTable : HpackDynTable) :
    decodeLoop data offset headers dynTable =
      decodeLoop data (readHeaderField data offset inside dynTable).next
        (headers ++ (readHeaderField data offset inside dynTable).header.toList)
        ((readHeaderField data offset inside dynTable).change.apply dynTable) := by
  rw [decodeLoop, dif_pos inside, readHeaderField]
  dsimp only
  split
  · rfl
  · split
    · rfl
    · split
      · rw [Option.toList_none, List.append_nil]
        rfl
      · rfl

/-- A table and what the next field does to it. -/
structure TableStep where
  dynTable : HpackDynTable
  change : Change
  deriving DecidableEq

/-- The table behind the field. -/
def TableStep.after (step : TableStep) : HpackDynTable :=
  step.change.apply step.dynTable

/-- What the fields of a block do to a table, from an offset on. -/
def stepsFrom (data : List Int64) (offset : Nat) (dynTable : HpackDynTable) : List TableStep :=
  if inside : offset < data.length then
    ⟨dynTable, (readHeaderField data offset inside dynTable).change⟩ ::
      stepsFrom data (readHeaderField data offset inside dynTable).next
        ((readHeaderField data offset inside dynTable).change.apply dynTable)
  else []
termination_by data.length - offset
decreasing_by exact Nat.sub_lt_sub_left inside (lt_readHeaderField inside dynTable)

/-- What the fields of blocks do to a table, one call of `Hpack.decode` after the other. -/
def steps (dynTable : HpackDynTable) : List (List Int64) → List TableStep
  | [] => []
  | block :: blocks => stepsFrom block 0 dynTable ++ steps (decode block dynTable).2 blocks

/-- What an entry counts for. -/
def entryLength (header : HpackHeader) : Nat :=
  header.name.length + header.value.length + 32

def tableLength (entries : List HpackHeader) : Nat :=
  (entries.map entryLength).sum

/-- `currentSize` is the size of the entries. -/
def Exact (dynTable : HpackDynTable) : Prop :=
  dynTable.currentSize.toInt = tableLength dynTable.entries

/-- A table that keeps to the size it was made with. -/
structure Bounded (m : Int64) (dynTable : HpackDynTable) : Prop where
  exact : Exact dynTable
  nonneg : 0 ≤ dynTable.currentSize
  size : dynTable.currentSize ≤ m
  limit : dynTable.maxSize ≤ m

/-- A field that keeps to it: a size update does not ask for more, and the size of the table with a
new entry that is not too large by itself is an `Int64`. -/
def Orderly (m : Int64) (step : TableStep) : Prop :=
  match step.change with
  | .keep => True
  | .add header => entrySize header ≤ step.dynTable.maxSize →
      step.dynTable.currentSize.toInt + entryLength header < 2 ^ 63
  | .setMaxSize newSize => newSize ≤ m

variable {header : HpackHeader}

theorem toInt_entrySize (small : entryLength header < 2 ^ 63) :
    (entrySize header).toInt = entryLength header := by
  have isSize : entrySize header = Int64.ofNat (entryLength header) := by
    rw [entrySize, entryLength, Int64.ofNat_add, Int64.ofNat_add]
    rfl
  rw [isSize]
  exact Int64.toInt_ofNat_of_lt small

theorem tableLength_dropLast {entries : List HpackHeader} (some : entries ≠ []) :
    tableLength entries.dropLast + entryLength (entries.getLast some) = tableLength entries := by
  conv => rhs; rw [← List.dropLast_append_getLast some]
  simp [tableLength]

/-- What the loop that evicts leaves. -/
structure Evicted (room : Int64) (before after : HpackDynTable) : Prop where
  exact : Exact after
  maxSize : after.maxSize = before.maxSize
  smaller : after.currentSize ≤ before.currentSize
  fits : after.entries = [] ∨ after.currentSize + room ≤ after.maxSize
  same : before.currentSize + room ≤ before.maxSize → after = before

theorem evict_evicted (room : Int64) {dynTable : HpackDynTable} (isExact : Exact dynTable) :
    Evicted room dynTable (dynTable.evict room) := by
  fun_induction HpackDynTable.evict room dynTable with
  | case1 dynTable large some ih =>
      have isSum := tableLength_dropLast some
      have high := dynTable.currentSize.toInt_lt
      have isSize : dynTable.currentSize.toInt = tableLength dynTable.entries := isExact
      have isLast : (entrySize (dynTable.entries.getLast some)).toInt =
          entryLength (dynTable.entries.getLast some) := toInt_entrySize (by omega)
      have isLess : (dynTable.currentSize - entrySize (dynTable.entries.getLast some)).toInt =
          tableLength dynTable.entries.dropLast := by
        rw [Int64.toInt_sub, isLast, isSize]
        rw [Int.bmod_eq_of_le] <;> omega
      have evicted := ih isLess
      refine ⟨evicted.exact, evicted.maxSize, ?_, evicted.fits, ?_⟩
      · apply Int64.le_trans evicted.smaller
        rw [Int64.le_iff_toInt_le, isLess]
        omega
      · intro small
        exact absurd large (Int64.not_lt.mpr small)
  | case2 dynTable large none =>
      refine ⟨isExact, rfl, Int64.le_refl _, Or.inl (not_not.mp none), fun _ => rfl⟩
  | case3 dynTable small =>
      exact ⟨isExact, rfl, Int64.le_refl _, Or.inr (Int64.not_lt.mp small), fun _ => rfl⟩

variable {dynTable : HpackDynTable} {m : Int64}

theorem Exact.nonneg (isExact : Exact dynTable) : 0 ≤ dynTable.currentSize := by
  have isSize : dynTable.currentSize.toInt = tableLength dynTable.entries := isExact
  rw [Int64.le_iff_toInt_le, isSize]
  exact Int.natCast_nonneg _

theorem Bounded.new (notNegative : 0 ≤ m) : Bounded m (HpackDynTable.new m) where
  exact := rfl
  nonneg := Int64.le_refl 0
  size := notNegative
  limit := Int64.le_refl m

theorem add_of_le (isExact : Exact dynTable) (small : entrySize header ≤ dynTable.maxSize) :
    dynTable.add header = ⟨header :: (dynTable.evict (entrySize header)).entries, dynTable.maxSize,
      (dynTable.evict (entrySize header)).currentSize + entrySize header⟩ := by
  have evicted := evict_evicted (entrySize header) isExact
  rw [HpackDynTable.add, evicted.maxSize, if_pos small]

theorem add_of_lt (isExact : Exact dynTable) (large : ¬ entrySize header ≤ dynTable.maxSize) :
    dynTable.add header = dynTable.evict (entrySize header) := by
  have evicted := evict_evicted (entrySize header) isExact
  rw [HpackDynTable.add, evicted.maxSize, if_neg large]

/-- An entry that fits is counted, and the table stays within its limit. -/
theorem Bounded.add {m : Int64} {dynTable : HpackDynTable} (bounded : Bounded m dynTable)
    {header : HpackHeader} (noWrap : entrySize header ≤ dynTable.maxSize →
      dynTable.currentSize.toInt + entryLength header < 2 ^ 63) : Bounded m (dynTable.add header) := by
  have evicted := evict_evicted (entrySize header) bounded.exact
  by_cases small : entrySize header ≤ dynTable.maxSize
  · have noWrap := noWrap small
    have nonneg := Int64.le_iff_toInt_le.mp bounded.nonneg
    have isEntry : (entrySize header).toInt = entryLength header :=
      toInt_entrySize (by change 0 ≤ _ at nonneg; omega)
    have smaller := Int64.le_iff_toInt_le.mp evicted.smaller
    have nonneg' := Int64.le_iff_toInt_le.mp evicted.exact.nonneg
    have isSum : ((dynTable.evict (entrySize header)).currentSize + entrySize header).toInt =
        (dynTable.evict (entrySize header)).currentSize.toInt + entryLength header := by
      rw [Int64.toInt_add, isEntry]
      change 0 ≤ _ at nonneg'
      apply Int.bmod_eq_of_le <;> omega
    have isExact : Exact (dynTable.add header) := by
      have isSize : (dynTable.evict (entrySize header)).currentSize.toInt =
        tableLength (dynTable.evict (entrySize header)).entries := evicted.exact
      rw [add_of_le bounded.exact small, Exact, isSum, isSize, tableLength, tableLength,
        List.map_cons, List.sum_cons]
      omega
    have isWithin : (dynTable.add header).currentSize ≤ dynTable.maxSize := by
      rw [add_of_le bounded.exact small]
      rcases evicted.fits with none | fits
      · have isZero : (dynTable.evict (entrySize header)).currentSize.toInt =
          tableLength (dynTable.evict (entrySize header)).entries := evicted.exact
        rw [none] at isZero
        rw [Int64.le_iff_toInt_le, isSum, isZero, ← isEntry]
        change 0 + _ ≤ _
        rw [Int.zero_add]
        exact Int64.le_iff_toInt_le.mp small
      · rwa [evicted.maxSize] at fits
    refine ⟨isExact, isExact.nonneg, Int64.le_trans isWithin bounded.limit, ?_⟩
    rw [add_of_le bounded.exact small]
    exact bounded.limit
  · rw [add_of_lt bounded.exact small]
    refine ⟨evicted.exact, evicted.exact.nonneg, Int64.le_trans evicted.smaller bounded.size, ?_⟩
    rw [evicted.maxSize]
    exact bounded.limit

theorem noWrap_of_add (isExact : Exact dynTable) (after : Exact (dynTable.add header))
    (small : entrySize header ≤ dynTable.maxSize) :
    dynTable.currentSize.toInt + entryLength header < 2 ^ 63 := by
  have evicted := evict_evicted (entrySize header) isExact
  have isSize : dynTable.currentSize.toInt = tableLength dynTable.entries := isExact
  have high := (dynTable.add header).currentSize.toInt_lt
  have isSize' : (dynTable.add header).currentSize.toInt = tableLength (dynTable.add header).entries :=
    after
  have isEntries : tableLength (dynTable.add header).entries =
      entryLength header + tableLength (dynTable.evict (entrySize header)).entries := by
    rw [add_of_le isExact small]
    rfl
  by_contra wraps
  have isEntry : (entrySize header).toInt = entryLength header := toInt_entrySize (by omega)
  -- the sum is negative, so nothing is evicted
  have isSame : dynTable.evict (entrySize header) = dynTable := by
    apply evicted.same
    have high := dynTable.currentSize.toInt_lt
    have small := Int64.le_iff_toInt_le.mp small
    rw [Int64.le_iff_toInt_le, Int64.toInt_add, isEntry]
    have isSum : (dynTable.currentSize.toInt + entryLength header).bmod (2 ^ 64) =
        dynTable.currentSize.toInt + entryLength header - 2 ^ 64 := by
      rw [← Int.sub_bmod_right]
      apply Int.bmod_eq_of_le <;> omega
    rw [isSum]
    omega
  rw [isSame] at isEntries
  omega

theorem Bounded.setMaxSize (bounded : Bounded m dynTable) {newSize : Int64} (within : newSize ≤ m) :
    Bounded m (dynTable.setMaxSize newSize) := by
  have evicted := @evict_evicted 0 { dynTable with maxSize := newSize } bounded.exact
  refine ⟨evicted.exact, evicted.exact.nonneg, Int64.le_trans evicted.smaller bounded.size, ?_⟩
  rw [HpackDynTable.setMaxSize, evicted.maxSize]
  exact within

theorem Bounded.step_iff (bounded : Bounded m dynTable) (change : Change) :
    Bounded m (change.apply dynTable) ↔ Orderly m ⟨dynTable, change⟩ := by
  cases change with
  | keep => exact iff_of_true bounded trivial
  | add header =>
      exact ⟨fun after small => noWrap_of_add bounded.exact after.exact small, bounded.add⟩
  | setMaxSize newSize =>
      constructor
      · intro after
        have evicted := @evict_evicted 0 { dynTable with maxSize := newSize } bounded.exact
        have isLimit := after.limit
        rwa [Change.apply, HpackDynTable.setMaxSize, evicted.maxSize] at isLimit
      · exact bounded.setMaxSize

/-- The fields of a block: all are orderly exactly if the table is bounded behind each, and then it
is behind the block. -/
theorem Bounded.block_iff {m : Int64} (data : List Int64) {offset : Nat} {dynTable : HpackDynTable}
    (bounded : Bounded m dynTable) (headers : List HpackHeader) :
    ((∀ step ∈ stepsFrom data offset dynTable, Bounded m step.after) ↔
        ∀ step ∈ stepsFrom data offset dynTable, Orderly m step) ∧
      ((∀ step ∈ stepsFrom data offset dynTable, Bounded m step.after) →
        Bounded m (decodeLoop data offset headers dynTable).2) := by
  fun_induction stepsFrom data offset dynTable generalizing headers with
  | case1 offset dynTable inside ih =>
      rw [List.forall_mem_cons, List.forall_mem_cons, decodeLoop_readHeaderField inside]
      have isStep := bounded.step_iff (readHeaderField data offset inside dynTable).change
      constructor
      · constructor
        · rintro ⟨first, later⟩
          exact ⟨isStep.mp first, (ih first []).1.mp later⟩
        · rintro ⟨first, later⟩
          exact ⟨isStep.mpr first, (ih (isStep.mpr first) []).1.mpr later⟩
      · rintro ⟨first, later⟩
        exact (ih first _).2 later
  | case2 offset dynTable isEnd =>
      rw [decodeLoop, dif_neg isEnd]
      exact ⟨Iff.of_eq (by simp only [List.not_mem_nil, false_implies]), fun _ => bounded⟩

theorem Bounded.steps_iff (bounded : Bounded m dynTable) (blocks : List (List Int64)) :
    (∀ step ∈ steps dynTable blocks, Bounded m step.after) ↔
      ∀ step ∈ steps dynTable blocks, Orderly m step := by
  induction blocks generalizing dynTable with
  | nil => exact iff_of_true nofun nofun
  | cons block blocks ih =>
      have isBlock := @Bounded.block_iff m block 0 dynTable bounded []
      rw [steps, List.forall_mem_append, List.forall_mem_append]
      constructor
      · rintro ⟨first, later⟩
        exact ⟨isBlock.1.mp first, (ih (isBlock.2 first)).mp later⟩
      · rintro ⟨first, later⟩
        have first := isBlock.1.mpr first
        exact ⟨first, (ih (isBlock.2 first)).mpr later⟩

theorem Bounded.decodeBlocks {m : Int64} {dynTable : HpackDynTable} (bounded : Bounded m dynTable)
    {blocks : List (List Int64)} (fields : ∀ step ∈ steps dynTable blocks, Bounded m step.after) :
    ∀ result ∈ decodeBlocks dynTable blocks, Bounded m result.2 := by
  induction blocks generalizing dynTable with
  | nil => exact nofun
  | cons block blocks ih =>
      rw [steps, List.forall_mem_append] at fields
      have behind := (@Bounded.block_iff m block 0 dynTable bounded []).2 fields.1
      rw [Tinox.Net.decodeBlocks, List.forall_mem_cons]
      exact ⟨behind, ih behind fields.2⟩

/-- The table is bounded behind every field of every block exactly if every field is orderly, and
then behind every call of `Hpack.decode`. -/
theorem tables_bounded_iff {m : Int64} (notNegative : 0 ≤ m) (blocks : List (List Int64)) :
    ((∀ step ∈ steps (HpackDynTable.new m) blocks, Bounded m step.after) ↔
        ∀ step ∈ steps (HpackDynTable.new m) blocks, Orderly m step) ∧
      ((∀ step ∈ steps (HpackDynTable.new m) blocks, Orderly m step) →
        ∀ result ∈ decodeBlocks (HpackDynTable.new m) blocks, Bounded m result.2) := by
  have isStart := Bounded.new notNegative
  have isRun := isStart.steps_iff blocks
  exact ⟨isRun, fun orderly => isStart.decodeBlocks (isRun.mpr orderly)⟩

/-- Two fields that are added, on a table that has room for one of them. -/
theorem tables_bounded_twoFields :
    steps (HpackDynTable.new 64) [[64, 1, 97, 1, 49], [64, 1, 98, 1, 50]] =
        [⟨⟨[], 64, 0⟩, .add ⟨[97], [49]⟩⟩, ⟨⟨[⟨[97], [49]⟩], 64, 34⟩, .add ⟨[98], [50]⟩⟩] ∧
      ∀ result ∈ decodeBlocks (HpackDynTable.new 64) [[64, 1, 97, 1, 49], [64, 1, 98, 1, 50]],
        Bounded 64 result.2 := by
  have isRun : steps (HpackDynTable.new 64) [[64, 1, 97, 1, 49], [64, 1, 98, 1, 50]] =
      [⟨⟨[], 64, 0⟩, .add ⟨[97], [49]⟩⟩, ⟨⟨[⟨[97], [49]⟩], 64, 34⟩, .add ⟨[98], [50]⟩⟩] := by
    with_unfolding_all decide
  refine ⟨isRun, (tables_bounded_iff (by decide) _).2 ?_⟩
  rw [isRun]
  intro step member
  simp only [List.mem_cons, List.not_mem_nil, or_false] at member
  rcases member with rfl | rfl <;> exact fun _ => by decide

/-- A size update raises the limit from 64 to 16384, and two entries exceed the 64. -/
theorem sizeUpdate_notBounded :
    decodeBlocks (HpackDynTable.new 64) [[63, 225, 127, 64, 1, 97, 1, 49, 64, 1, 98, 1, 50]] =
        [([⟨[97], [49]⟩, ⟨[98], [50]⟩], ⟨[⟨[98], [50]⟩, ⟨[97], [49]⟩], 16384, 68⟩)] ∧
      ¬ ∀ result ∈ decodeBlocks (HpackDynTable.new 64)
        [[63, 225, 127, 64, 1, 97, 1, 49, 64, 1, 98, 1, 50]], Bounded 64 result.2 := by
  have isRun : decodeBlocks (HpackDynTable.new 64)
      [[63, 225, 127, 64, 1, 97, 1, 49, 64, 1, 98, 1, 50]] =
        [([⟨[97], [49]⟩, ⟨[98], [50]⟩], ⟨[⟨[98], [50]⟩, ⟨[97], [49]⟩], 16384, 68⟩)] := by
    with_unfolding_all decide
  refine ⟨isRun, fun bounded => ?_⟩
  rw [isRun, List.forall_mem_singleton] at bounded
  exact absurd bounded.size (by decide)

end Tinox.Net
