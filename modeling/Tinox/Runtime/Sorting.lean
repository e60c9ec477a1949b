import Mathlib.Data.Nat.Log
import Tinox.Data.Shuffles
import Tinox.Runtime.Handles

/-!
# Sorting

`sort_i64_range` sorts small ranges by insertion, and others by a partition around the median of
three elements.  Each access is checked against the range that is sorted, which the code itself
does not do.  Indices are integers without a size: all of them are next to an element.
-/

namespace Tinox.Runtime.Arrays

open Shuffles

/-! ## Loops -/

/-- Read `arr[i]`, within the range. -/
def fetch (lo hi : Int) (arr : List Int64) (i : Int) : Except Stop Int64 :=
  if lo ≤ i ∧ i ≤ hi then load arr i else .error .outOfBounds

/-- Write `arr[i]`, within the range. -/
def put (lo hi : Int) (arr : List Int64) (i : Int) (value : Int64) : Except Stop (List Int64) :=
  if lo ≤ i ∧ i ≤ hi then store arr i value else .error .outOfBounds

/-- `i64_swap` of `arr[a]` and `arr[b]`. -/
def i64Swap (lo hi : Int) (arr : List Int64) (a b : Int) : Except Stop (List Int64) := do
  let t ← fetch lo hi arr a
  let other ← fetch lo hi arr b
  let arr ← put lo hi arr a other
  put lo hi arr b t

/-- The inner loop of the insertion sort, and the store behind it. -/
def shiftLoop (lo hi : Int) (key : Int64) (arr : List Int64) (j : Int) :
    Except Stop (List Int64) :=
  if j > lo then do
    let before ← fetch lo hi arr (j - 1)
    if before > key then do
      let arr ← put lo hi arr j before
      shiftLoop lo hi key arr (j - 1)
    else put lo hi arr j key
  else put lo hi arr j key
termination_by (j - lo).toNat
decreasing_by omega

/-- The outer loop of the insertion sort. -/
def insertionLoop (lo hi : Int) (arr : List Int64) (i : Int) : Except Stop (List Int64) :=
  if i ≤ hi then do
    let key ← fetch lo hi arr i
    let arr ← shiftLoop lo hi key arr i
    insertionLoop lo hi arr (i + 1)
  else pure arr
termination_by (hi + 1 - i).toNat
decreasing_by omega

variable {lo hi i j : Int} {arr : List Int64} {pivot : Int64}

theorem fetch_ok {x : Int64} (isOk : fetch lo hi arr i = .ok x) : lo ≤ i ∧ i ≤ hi := by
  rw [fetch] at isOk
  split at isOk
  next inside => exact inside
  next => contradiction

/-- `while (arr[++i] < pivot);` -/
def scanUp (lo hi : Int) (pivot : Int64) (arr : List Int64) (i : Int) : Except Stop Int :=
  match _ : fetch lo hi arr (i + 1) with
  | .error stop => .error stop
  | .ok x => if x < pivot then scanUp lo hi pivot arr (i + 1) else .ok (i + 1)
termination_by (hi - i).toNat
decreasing_by
  have inside := fetch_ok ‹_›
  omega

/-- `while (arr[--j] > pivot);` -/
def scanDown (lo hi : Int) (pivot : Int64) (arr : List Int64) (j : Int) : Except Stop Int :=
  match _ : fetch lo hi arr (j - 1) with
  | .error stop => .error stop
  | .ok x => if x > pivot then scanDown lo hi pivot arr (j - 1) else .ok (j - 1)
termination_by (j - lo).toNat
decreasing_by
  have inside := fetch_ok ‹_›
  omega

theorem scanUp_ok {i' : Int} (isOk : scanUp lo hi pivot arr i = .ok i') :
    i < i' ∧ lo ≤ i' ∧ i' ≤ hi := by
  fun_induction scanUp lo hi pivot arr i with
  | case1 => contradiction
  | case2 i x isRead _ ih =>
      have later := ih isOk
      omega
  | case3 i x isRead _ =>
      have inside := fetch_ok isRead
      cases isOk
      omega

theorem scanDown_ok {j' : Int} (isOk : scanDown lo hi pivot arr j = .ok j') :
    j' < j ∧ lo ≤ j' ∧ j' ≤ hi := by
  fun_induction scanDown lo hi pivot arr j with
  | case1 => contradiction
  | case2 j x isRead _ ih =>
      have later := ih isOk
      omega
  | case3 j x isRead _ =>
      have inside := fetch_ok isRead
      cases isOk
      omega

/-- The loop of the partition; it returns the elements and `i`. -/
def partitionLoop (lo hi : Int) (pivot : Int64) (arr : List Int64) (i j : Int) :
    Except Stop (List Int64 × Int) :=
  match _ : scanUp lo hi pivot arr i with
  | .error stop => .error stop
  | .ok i' =>
      match _ : scanDown lo hi pivot arr j with
      | .error stop => .error stop
      | .ok j' =>
          if i' ≥ j' then .ok (arr, i')
          else do
            let arr ← i64Swap lo hi arr i' j'
            partitionLoop lo hi pivot arr i' j'
termination_by (j - i).toNat
decreasing_by
  have up := scanUp_ok ‹_›
  have down := scanDown_ok ‹_›
  omega

/-- `if (arr[a] > arr[b]) i64_swap(&arr[a], &arr[b])`. -/
def swapIfGreater (lo hi : Int) (arr : List Int64) (a b : Int) : Except Stop (List Int64) := do
  let x ← fetch lo hi arr a
  let y ← fetch lo hi arr b
  if x > y then i64Swap lo hi arr a b else pure arr

/-- The partition: the elements and the place of the pivot. -/
def partitionRange (lo hi : Int) (arr : List Int64) : Except Stop (List Int64 × Int) := do
  let mid := lo + (hi - lo) / 2
  let arr ← swapIfGreater lo hi arr lo mid
  let arr ← swapIfGreater lo hi arr lo hi
  let arr ← swapIfGreater lo hi arr mid hi
  let pivot ← fetch lo hi arr mid
  let arr ← i64Swap lo hi arr mid (hi - 1)
  let (arr, i) ← partitionLoop lo hi pivot arr lo (hi - 1)
  let arr ← i64Swap lo hi arr i (hi - 1)
  pure (arr, i)

theorem partitionLoop_ok {result : List Int64 × Int}
    (isOk : partitionLoop lo hi pivot arr i j = .ok result) (inside : lo ≤ i) :
    lo < result.2 ∧ result.2 ≤ hi := by
  fun_induction partitionLoop lo hi pivot arr i j with
  | case1 => contradiction
  | case2 => contradiction
  | case3 arr i j i' isUp j' isDown _ =>
      have up := scanUp_ok isUp
      cases isOk
      omega
  | case4 arr i j i' isUp j' isDown _ ih =>
      have up := scanUp_ok isUp
      rcases exists_of_bind_ok isOk with ⟨arr', -, isOk⟩
      exact ih arr' isOk up.2.1

theorem partitionRange_ok {result : List Int64 × Int} (isOk : partitionRange lo hi arr = .ok result) :
    lo < result.2 ∧ result.2 ≤ hi := by
  rw [partitionRange] at isOk
  rcases exists_of_bind_ok isOk with ⟨_, -, isOk⟩
  rcases exists_of_bind_ok isOk with ⟨_, -, isOk⟩
  rcases exists_of_bind_ok isOk with ⟨_, -, isOk⟩
  rcases exists_of_bind_ok isOk with ⟨_, -, isOk⟩
  rcases exists_of_bind_ok isOk with ⟨_, -, isOk⟩
  rcases exists_of_bind_ok isOk with ⟨last, isLast, isOk⟩
  rcases exists_of_bind_ok isOk with ⟨_, -, isOk⟩
  have bounds := partitionLoop_ok isLast (Int.le_refl lo)
  cases isOk
  exact bounds

/-- `sort_i64_range`, with the number of calls that are active at once. -/
def sortRange (arr : List Int64) (lo hi : Int) : Except Stop (List Int64 × Nat) :=
  if lo < hi then
    if hi - lo < 16 then do
      let arr ← insertionLoop lo hi arr (lo + 1)
      pure (arr, 1)
    else
      match _ : partitionRange lo hi arr with
      | .error stop => .error stop
      | .ok (arr, i) =>
          if i - lo < hi - i then do
            let (arr, deeper) ← sortRange arr lo (i - 1)
            let (arr, depth) ← sortRange arr (i + 1) hi
            pure (arr, max (deeper + 1) depth)
          else do
            let (arr, deeper) ← sortRange arr (i + 1) hi
            let (arr, depth) ← sortRange arr lo (i - 1)
            pure (arr, max (deeper + 1) depth)
  else pure (arr, 1)
termination_by (hi + 1 - lo).toNat
decreasing_by
  all_goals
    have bounds := partitionRange_ok ‹_›
    dsimp only at bounds
    omega

/-- `if (len > 1) sort_i64_range(nd, 0, len - 1)`. -/
def sortAll (len : Int) (nd : List Int64) : Except Stop (List Int64 × Nat) :=
  if len > 1 then sortRange nd 0 (len - 1) else pure (nd, 0)

/-- `tinox_array_sort`: the arrays, the handle that is returned, and the number of calls of
`sort_i64_range` that are active at once. -/
def tinoxArraySort (available : Nat → Bool) (heap : Heap) (h : Nat) :
    Except Stop (Heap × Nat × Nat) := do
  let a ← behind heap h
  let nh ← tinoxArrayNew available a.len 0
  let nd ← moved a nh.data
  let (nd, depth) ← sortAll a.len nd
  pure (heap ++ [⟨nh.len, nh.cap, nd⟩], heap.length, depth)

/-- The value of an element. -/
def element (arr : List Int64) (i : Int) : Int :=
  (arr.getD i.toNat 0).toInt

/-- The range is one of the memory. -/
structure Within (lo hi : Int) (arr : List Int64) : Prop where
  nonneg : 0 ≤ lo
  inMemory : hi < arr.length

variable {a b : Int}

theorem Within.mono {lo' hi' : Int} (within : Within lo hi arr) (lower : lo ≤ lo')
    (upper : hi' ≤ hi) : Within lo' hi' arr := by
  have nonneg := within.nonneg
  have inMemory := within.inMemory
  exact ⟨by omega, by omega⟩

/-- Elements of the range in another order. -/
abbrev Reordered (lo hi : Int) (arr arr' : List Int64) : Prop :=
  Shuffled lo.toNat (hi + 1).toNat arr arr'

variable {lo hi : Int} {arr arr' : List Int64}

theorem Within.of_length (within : Within lo hi arr) (same : arr'.length = arr.length) :
    Within lo hi arr' :=
  ⟨within.nonneg, by rw [same]; exact within.inMemory⟩

theorem fetch_eq (within : Within lo hi arr) (inside : lo ≤ i ∧ i ≤ hi) :
    fetch lo hi arr i = .ok (arr.getD i.toNat 0) := by
  have nonneg := within.nonneg
  have inMemory := within.inMemory
  rw [fetch, if_pos inside, load, if_pos (by omega)]

theorem put_eq (within : Within lo hi arr) (inside : lo ≤ i ∧ i ≤ hi) (x : Int64) :
    put lo hi arr i x = .ok (arr.set i.toNat x) := by
  have nonneg := within.nonneg
  have inMemory := within.inMemory
  rw [put, if_pos inside, store, if_pos (by omega)]

theorem element_set {k : Int} (iNonneg : 0 ≤ i) (inMemory : i < arr.length) (kNonneg : 0 ≤ k)
    (x : Int64) : element (arr.set i.toNat x) k = if k = i then x.toInt else element arr k := by
  rw [element, element, List.getD_eq_getElem?_getD, List.getD_eq_getElem?_getD, List.getElem?_set]
  by_cases same : k = i
  · rw [if_pos (congrArg Int.toNat same.symm), if_pos (by omega), if_pos same]
    rfl
  · rw [if_neg (by omega), if_neg same]

theorem Within.reordered (within : Within lo hi arr) (reordered : Reordered lo hi arr arr') :
    Within lo hi arr' :=
  within.of_length reordered.length_eq

theorem element_outside {k : Int} (reordered : Reordered lo hi arr arr') (kNonneg : 0 ≤ k)
    (outside : k < lo ∨ hi < k) : element arr' k = element arr k := by
  rw [element, element, List.getD_eq_getElem?_getD, List.getD_eq_getElem?_getD]
  rcases outside with before | behind
  · rw [reordered.getElem?_front (by omega)]
  · rw [reordered.getElem?_back (by omega)]

/-- A bound of the elements of the range is one of them in any order. -/
theorem forall_element (within : Within lo hi arr) (reordered : Reordered lo hi arr arr')
    {P : Int → Prop} (holds : ∀ k, lo ≤ k → k ≤ hi → P (element arr k)) :
    ∀ k, lo ≤ k → k ≤ hi → P (element arr' k) := by
  have nonneg := within.nonneg
  have inMemory := within.inMemory
  have ofNat : ∀ k, lo.toNat ≤ k → k < (hi + 1).toNat → ∀ y ∈ arr'[k]?, P y.toInt := by
    apply reordered.forall_segment (P := fun x => P x.toInt)
    intro k lower upper x isAt
    have ofElement := holds k (by omega) (by omega)
    rw [element, Int.toNat_natCast, List.getD_eq_getElem?_getD, isAt] at ofElement
    exact ofElement
  intro k lower upper
  have inMemory' : k.toNat < arr'.length := by
    rw [reordered.length_eq]
    omega
  have isAt := List.getElem?_eq_getElem inMemory'
  rw [element, List.getD_eq_getElem?_getD, isAt]
  exact ofNat k.toNat (by omega) (by omega) _ isAt

theorem i64Swap_spec (within : Within lo hi arr) (first : lo ≤ a ∧ a ≤ hi)
    (second : lo ≤ b ∧ b ≤ hi) :
    ∃ arr', i64Swap lo hi arr a b = .ok arr' ∧ Reordered lo hi arr arr' ∧
      element arr' a = element arr b ∧ element arr' b = element arr a ∧
      ∀ k, 0 ≤ k → k ≠ a → k ≠ b → element arr' k = element arr k := by
  have nonneg := within.nonneg
  have inMemory := within.inMemory
  have set : ∀ x : Int64, Within lo hi (arr.set a.toNat x) := fun x =>
    within.of_length (List.length_set ..)
  have elements : ∀ k, 0 ≤ k →
      element ((arr.set a.toNat (arr.getD b.toNat 0)).set b.toNat (arr.getD a.toNat 0)) k =
        if k = b then element arr a else if k = a then element arr b else element arr k := by
    intro k kNonneg
    rw [element_set (by omega) (by rw [List.length_set]; omega) kNonneg,
      element_set (by omega) (by omega) kNonneg]
    rfl
  refine ⟨(arr.set a.toNat (arr.getD b.toNat 0)).set b.toNat (arr.getD a.toNat 0), ?_, ?_, ?_, ?_,
    ?_⟩
  · rw [i64Swap, fetch_eq within first, fetch_eq within second]
    change (put lo hi arr a _ >>= _) = _
    rw [put_eq within first]
    exact put_eq (set _) second _
  · have aWithin : a.toNat < arr.length := by omega
    have bWithin : b.toNat < arr.length := by omega
    rw [List.getD_eq_getElem _ _ aWithin, List.getD_eq_getElem _ _ bWithin]
    exact Shuffled.swap (by omega) (by omega) aWithin bWithin
  · rw [elements a (by omega), if_pos rfl]
    split
    next same => rw [same]
    next => rfl
  · rw [elements b (by omega), if_pos rfl]
  · intro k kNonneg notFirst notSecond
    rw [elements k kNonneg, if_neg notSecond, if_neg notFirst]

/-! ## The partition -/

theorem lt_iff_element (x : Int64) : arr.getD i.toNat 0 < x ↔ element arr i < x.toInt :=
  Int64.lt_iff_toInt_lt

theorem gt_iff_element (x : Int64) : arr.getD i.toNat 0 > x ↔ x.toInt < element arr i :=
  Int64.lt_iff_toInt_lt

theorem swapIfGreater_spec (within : Within lo hi arr) (first : lo ≤ a ∧ a ≤ hi)
    (second : lo ≤ b ∧ b ≤ hi) :
    ∃ arr', swapIfGreater lo hi arr a b = .ok arr' ∧ Reordered lo hi arr arr' ∧
      element arr' a = min (element arr a) (element arr b) ∧
      element arr' b = max (element arr a) (element arr b) ∧
      ∀ k, 0 ≤ k → k ≠ a → k ≠ b → element arr' k = element arr k := by
  rw [swapIfGreater, fetch_eq within first, fetch_eq within second]
  change ∃ arr', (if arr.getD a.toNat 0 > arr.getD b.toNat 0 then i64Swap lo hi arr a b
    else pure arr) = .ok arr' ∧ _
  split
  next greater =>
    have greater : element arr b < element arr a := (gt_iff_element _).mp greater
    rcases i64Swap_spec within first second with ⟨arr', isSwapped, reordered, atFirst, atSecond, same⟩
    exact ⟨arr', isSwapped, reordered, by omega, by omega, same⟩
  next notGreater =>
    have notGreater : ¬ element arr b < element arr a := fun less =>
      notGreater ((gt_iff_element _).mpr less)
    exact ⟨arr, rfl, Shuffled.refl _ _ arr, by omega, by omega, fun _ _ _ _ => rfl⟩

theorem scanUp_spec (within : Within lo hi arr) (lower : lo ≤ i + 1) (before : i < j)
    (upper : j ≤ hi) (sentinel : pivot.toInt ≤ element arr j) :
    ∃ i', scanUp lo hi pivot arr i = .ok i' ∧ i < i' ∧ i' ≤ j ∧ pivot.toInt ≤ element arr i' ∧
      ∀ k, i < k → k < i' → element arr k < pivot.toInt := by
  fun_induction scanUp lo hi pivot arr i with
  | case1 i stop isError =>
      rw [fetch_eq within ⟨lower, by omega⟩] at isError
      exact nomatch isError
  | case2 i x isRead below ih =>
      rw [fetch_eq within ⟨lower, by omega⟩] at isRead
      cases isRead
      rw [lt_iff_element] at below
      have notHere : i + 1 ≠ j := by
        rintro rfl
        omega
      rcases ih (by omega) (by omega) with ⟨i', isUp, lower', upper', atLeast, between⟩
      refine ⟨i', isUp, by omega, upper', atLeast, ?_⟩
      intro k first last
      by_cases isNext : k = i + 1
      · rw [isNext]
        exact below
      · exact between k (by omega) last
  | case3 i x isRead notBelow =>
      rw [fetch_eq within ⟨lower, by omega⟩] at isRead
      cases isRead
      rw [lt_iff_element] at notBelow
      exact ⟨i + 1, rfl, by omega, by omega, by omega, fun k _ _ => by omega⟩

theorem scanDown_spec (within : Within lo hi arr) (lower : lo ≤ i) (before : i < j)
    (upper : j - 1 ≤ hi) (sentinel : element arr i ≤ pivot.toInt) :
    ∃ j', scanDown lo hi pivot arr j = .ok j' ∧ j' < j ∧ i ≤ j' ∧ element arr j' ≤ pivot.toInt ∧
      ∀ k, j' < k → k < j → pivot.toInt < element arr k := by
  fun_induction scanDown lo hi pivot arr j with
  | case1 j stop isError =>
      rw [fetch_eq within ⟨by omega, upper⟩] at isError
      exact nomatch isError
  | case2 j x isRead above ih =>
      rw [fetch_eq within ⟨by omega, upper⟩] at isRead
      cases isRead
      rw [gt_iff_element] at above
      have notHere : j - 1 ≠ i := by
        rintro rfl
        omega
      rcases ih (by omega) (by omega) with ⟨j', isDown, upper', lower', atMost, between⟩
      refine ⟨j', isDown, by omega, lower', atMost, ?_⟩
      intro k first last
      by_cases isNext : k = j - 1
      · rw [isNext]
        exact above
      · exact between k first (by omega)
  | case3 j x isRead notAbove =>
      rw [fetch_eq within ⟨by omega, upper⟩] at isRead
      cases isRead
      rw [gt_iff_element] at notAbove
      exact ⟨j - 1, rfl, by omega, by omega, by omega, fun k _ _ => by omega⟩

/-- Up to `i` no element is above the pivot, from `j` on none is below it, and it is kept in front
of the last element. -/
structure Parted (lo hi : Int) (pivot : Int64) (arr : List Int64) (i j : Int) : Prop where
  lower : lo ≤ i
  apart : i < j
  upper : j ≤ hi - 1
  left : ∀ k, lo ≤ k → k ≤ i → element arr k ≤ pivot.toInt
  right : ∀ k, j ≤ k → k ≤ hi → pivot.toInt ≤ element arr k
  kept : element arr (hi - 1) = pivot.toInt

theorem Parted.scans (within : Within lo hi arr) (parted : Parted lo hi pivot arr i j) :
    ∃ i' j', scanUp lo hi pivot arr i = .ok i' ∧ scanDown lo hi pivot arr j = .ok j' ∧
      i < i' ∧ i' ≤ j ∧ i ≤ j' ∧ j' < j ∧
      pivot.toInt ≤ element arr i' ∧ element arr j' ≤ pivot.toInt ∧
      (∀ k, lo ≤ k → k < i' → element arr k ≤ pivot.toInt) ∧
      ∀ k, j' < k → k ≤ hi → pivot.toInt ≤ element arr k := by
  rcases parted with ⟨lower, apart, upper, left, right, -⟩
  rcases scanUp_spec within (by omega) apart (by omega) (right j (by omega) (by omega)) with
    ⟨i', isUp, iBefore, iUpper, iAtLeast, iBetween⟩
  rcases scanDown_spec within lower apart (by omega) (left i lower (by omega)) with
    ⟨j', isDown, jBefore, jLower, jAtMost, jBetween⟩
  refine ⟨i', j', isUp, isDown, iBefore, iUpper, jLower, jBefore, iAtLeast, jAtMost, ?_, ?_⟩
  · intro k first last
    by_cases old : k ≤ i
    · exact left k first old
    · exact Int.le_of_lt (iBetween k (by omega) last)
  · intro k first last
    by_cases old : j ≤ k
    · exact right k old last
    · exact Int.le_of_lt (jBetween k first (by omega))

theorem partitionLoop_spec (within : Within lo hi arr) (parted : Parted lo hi pivot arr i j) :
    ∃ arr' i', partitionLoop lo hi pivot arr i j = .ok (arr', i') ∧ Reordered lo hi arr arr' ∧
      lo < i' ∧ i' ≤ hi - 1 ∧ (∀ k, lo ≤ k → k < i' → element arr' k ≤ pivot.toInt) ∧
      (∀ k, i' ≤ k → k ≤ hi → pivot.toInt ≤ element arr' k) ∧
      element arr' (hi - 1) = pivot.toInt := by
  have nonneg := within.nonneg
  fun_induction partitionLoop lo hi pivot arr i j with
  | case1 arr i j stop isError =>
      rcases parted.scans within with ⟨_, _, isUp, -⟩
      exact nomatch isUp.symm.trans isError
  | case2 arr i j i' isUp stop isError =>
      rcases parted.scans within with ⟨_, _, -, isDown, -⟩
      exact nomatch isDown.symm.trans isError
  | case3 arr i j i' isUp j' isDown crossed =>
      rcases parted.scans within with
        ⟨_, _, isUp', isDown', iBefore, iUpper, jLower, jBefore, iAtLeast, jAtMost, below, above⟩
      cases isUp.symm.trans isUp'
      cases isDown.symm.trans isDown'
      have lower := parted.lower
      have upper := parted.upper
      refine ⟨arr, i', rfl, Shuffled.refl _ _ arr, by omega, by omega, below, ?_, parted.kept⟩
      intro k first last
      by_cases isHere : k = i'
      · rw [isHere]
        exact iAtLeast
      · exact above k (by omega) last
  | case4 arr i j i' isUp j' isDown notCrossed ih =>
      rcases parted.scans within with
        ⟨_, _, isUp', isDown', iBefore, iUpper, jLower, jBefore, iAtLeast, jAtMost, below, above⟩
      cases isUp.symm.trans isUp'
      cases isDown.symm.trans isDown'
      have lower := parted.lower
      have upper := parted.upper
      rcases i64Swap_spec within (a := i') (b := j') ⟨by omega, by omega⟩ ⟨by omega, by omega⟩ with
        ⟨arr', isSwapped, reordered, atFirst, atSecond, same⟩
      have parted' : Parted lo hi pivot arr' i' j' := by
        refine ⟨by omega, by omega, by omega, ?_, ?_, ?_⟩
        · intro k first last
          by_cases isHere : k = i'
          · rw [isHere, atFirst]
            exact jAtMost
          · rw [same k (by omega) isHere (by omega)]
            exact below k first (by omega)
        · intro k first last
          by_cases isHere : k = j'
          · rw [isHere, atSecond]
            exact iAtLeast
          · rw [same k (by omega) (by omega) isHere]
            exact above k (by omega) last
        · rw [same (hi - 1) (by omega) (by omega) (by omega)]
          exact parted.kept
      rcases ih arr' (within.reordered reordered) parted' with ⟨last, place, isLast, later, rest⟩
      refine ⟨last, place, ?_, reordered.trans later, rest⟩
      rw [isSwapped]
      exact isLast

/-- No element in front of the one at `i` is above it, and none behind it is below. -/
structure Pivoted (lo hi : Int) (arr : List Int64) (i : Int) : Prop where
  lower : lo < i
  upper : i < hi
  below : ∀ k, lo ≤ k → k ≤ i - 1 → element arr k ≤ element arr i
  above : ∀ k, i + 1 ≤ k → k ≤ hi → element arr i ≤ element arr k

theorem partitionRange_spec (within : Within lo hi arr) (large : 16 ≤ hi - lo) :
    ∃ arr' i, partitionRange lo hi arr = .ok (arr', i) ∧ Reordered lo hi arr arr' ∧
      Pivoted lo hi arr' i := by
  have nonneg := within.nonneg
  rw [partitionRange]
  dsimp only
  generalize isMid : lo + (hi - lo) / 2 = mid
  have lower : lo + 8 ≤ mid := by omega
  have upper : mid < hi - 1 := by omega
  rcases swapIfGreater_spec within (a := lo) (b := mid) ⟨by omega, by omega⟩ ⟨by omega, by omega⟩ with
    ⟨arr₁, isFirst, reordered₁, atLo₁, atMid₁, same₁⟩
  have within₁ := within.reordered reordered₁
  rcases swapIfGreater_spec within₁ (a := lo) (b := hi) ⟨by omega, by omega⟩ ⟨by omega, by omega⟩ with
    ⟨arr₂, isSecond, reordered₂, atLo₂, atHi₂, same₂⟩
  have within₂ := within₁.reordered reordered₂
  rcases swapIfGreater_spec within₂ (a := mid) (b := hi) ⟨by omega, by omega⟩ ⟨by omega, by omega⟩ with
    ⟨arr₃, isThird, reordered₃, atMid₃, atHi₃, same₃⟩
  have within₃ := within₂.reordered reordered₃
  rcases i64Swap_spec within₃ (a := mid) (b := hi - 1) ⟨by omega, by omega⟩ ⟨by omega, by omega⟩ with
    ⟨arr₄, isFourth, reordered₄, atMid₄, atLast₄, same₄⟩
  have within₄ := within₃.reordered reordered₄
  have parted : Parted lo hi (arr₃.getD mid.toNat 0) arr₄ lo (hi - 1) := by
    have midSame := same₂ mid (by omega) (by omega) (by omega)
    have loSame := same₃ lo (by omega) (by omega) (by omega)
    have loSame' := same₄ lo (by omega) (by omega) (by omega)
    have hiSame := same₄ hi (by omega) (by omega) (by omega)
    have isPivot : (arr₃.getD mid.toNat 0).toInt = element arr₃ mid := rfl
    refine ⟨Int.le_refl lo, by omega, Int.le_refl _, ?_, ?_, by omega⟩
    · intro k first last
      have isLo : k = lo := by omega
      rw [isLo]
      omega
    · intro k first last
      by_cases isHi : k = hi
      · rw [isHi]
        omega
      · have isLast : k = hi - 1 := by omega
        rw [isLast]
        omega
  rcases partitionLoop_spec within₄ parted with
    ⟨arr₅, i, isFifth, reordered₅, iLower, iUpper, below, above, kept⟩
  have within₅ := within₄.reordered reordered₅
  rcases i64Swap_spec within₅ (a := i) (b := hi - 1) ⟨by omega, by omega⟩ ⟨by omega, by omega⟩ with
    ⟨arr₆, isSixth, reordered₆, atI, atLast, same⟩
  refine ⟨arr₆, i, ?_, ?_, iLower, by omega, ?_, ?_⟩
  · rw [bind_of_ok isFirst, bind_of_ok isSecond, bind_of_ok isThird,
      bind_of_ok (fetch_eq within₃ ⟨by omega, by omega⟩), bind_of_ok isFourth,
      bind_of_ok isFifth, bind_of_ok isSixth]
    rfl
  · exact reordered₁.trans (reordered₂.trans (reordered₃.trans (reordered₄.trans
      (reordered₅.trans reordered₆))))
  · intro k first last
    rw [same k (by omega) (by omega) (by omega), atI, kept]
    exact below k first (by omega)
  · intro k first last
    rw [atI, kept]
    by_cases isLast : k = hi - 1
    · rw [isLast, atLast]
      exact above i (Int.le_refl i) (by omega)
    · rw [same k (by omega) (by omega) isLast]
      exact above k (by omega) last

/-! ## Insertion -/

/-- The elements of a range are ascending. -/
def Ascending (lo hi : Int) (arr : List Int64) : Prop :=
  ∀ a b, lo ≤ a → a ≤ b → b ≤ hi → element arr a ≤ element arr b

/-- Around the place that is free, elements are ascending up to `i`; those behind it are above the
key. -/
structure Opened (lo i : Int) (key : Int64) (arr : List Int64) (j : Int) : Prop where
  lower : lo ≤ j
  upper : j ≤ i
  ascending : ∀ a b, lo ≤ a → a ≤ b → b ≤ i → a ≠ j → b ≠ j → element arr a ≤ element arr b
  above : ∀ k, j < k → k ≤ i → key.toInt < element arr k

variable {key : Int64}

theorem Opened.put (within : Within lo hi arr) (upper : i ≤ hi) (opened : Opened lo i key arr j)
    (atMost : lo < j → element arr (j - 1) ≤ key.toInt) :
    ∃ arr', put lo hi arr j key = .ok arr' ∧ Reordered lo hi (arr.set j.toNat key) arr' ∧
      Ascending lo i arr' := by
  rcases opened with ⟨lower, jUpper, ascending, above⟩
  have nonneg := within.nonneg
  have inMemory := within.inMemory
  refine ⟨_, put_eq within ⟨lower, by omega⟩ key, Shuffled.refl _ _ _, ?_⟩
  intro a b aLower ordered bUpper
  rw [element_set (by omega) (by omega) (by omega), element_set (by omega) (by omega) (by omega)]
  by_cases aHere : a = j
  · by_cases bHere : b = j
    · rw [if_pos aHere, if_pos bHere]
    · rw [if_pos aHere, if_neg bHere]
      exact Int.le_of_lt (above b (by omega) bUpper)
  · by_cases bHere : b = j
    · rw [if_neg aHere, if_pos bHere]
      have before := ascending a (j - 1) aLower (by omega) (by omega) aHere (by omega)
      have last := atMost (by omega)
      omega
    · rw [if_neg aHere, if_neg bHere]
      exact ascending a b aLower ordered bUpper aHere bHere

/-- The free place moves down, as if the key were exchanged with the element in front of it. -/
theorem Opened.shift (within : Within lo hi arr) (upper : i ≤ hi) (opened : Opened lo i key arr j)
    (notFirst : lo < j) (greater : key.toInt < element arr (j - 1)) :
    Opened lo i key (arr.set j.toNat (arr.getD (j - 1).toNat 0)) (j - 1) ∧
      Reordered lo hi (arr.set j.toNat key)
        ((arr.set j.toNat (arr.getD (j - 1).toNat 0)).set (j - 1).toNat key) := by
  rcases opened with ⟨lower, jUpper, ascending, above⟩
  have nonneg := within.nonneg
  have inMemory := within.inMemory
  have isElement : ∀ k, lo ≤ k → element (arr.set j.toNat (arr.getD (j - 1).toNat 0)) k =
      if k = j then element arr (j - 1) else element arr k := fun k first =>
    element_set (by omega) (by omega) (by omega) _
  constructor
  · refine ⟨by omega, by omega, ?_, ?_⟩
    · intro a b aLower ordered bUpper aNot bNot
      rw [isElement a aLower, isElement b (by omega)]
      by_cases aHere : a = j
      · by_cases bHere : b = j
        · rw [if_pos aHere, if_pos bHere]
        · rw [if_pos aHere, if_neg bHere]
          exact ascending (j - 1) b (by omega) (by omega) bUpper (by omega) bHere
      · by_cases bHere : b = j
        · rw [if_neg aHere, if_pos bHere]
          exact ascending a (j - 1) aLower (by omega) (by omega) aHere (by omega)
        · rw [if_neg aHere, if_neg bHere]
          exact ascending a b aLower ordered bUpper aHere bHere
    · intro k first last
      rw [isElement k (by omega)]
      split
      next => exact greater
      next notHere => exact above k (by omega) last
  · have jWithin : j.toNat < (arr.set j.toNat key).length := by
      rw [List.length_set]
      omega
    have beforeWithin : (j - 1).toNat < (arr.set j.toNat key).length := by
      rw [List.length_set]
      omega
    have inSegment : lo.toNat ≤ j.toNat ∧ j.toNat < (hi + 1).toNat := by omega
    have beforeInSegment : lo.toNat ≤ (j - 1).toNat ∧ (j - 1).toNat < (hi + 1).toNat := by omega
    have exchanged := Shuffled.swap inSegment beforeInSegment jWithin beforeWithin
    rw [List.set_set, List.getElem_set_self, List.getElem_set_ne (by omega)] at exchanged
    rw [List.getD_eq_getElem _ _ (by omega)]
    exact exchanged

theorem shiftLoop_spec (within : Within lo hi arr) (upper : i ≤ hi) (opened : Opened lo i key arr j) :
    ∃ arr', shiftLoop lo hi key arr j = .ok arr' ∧
      Reordered lo hi (arr.set j.toNat key) arr' ∧ Ascending lo i arr' := by
  have lower := opened.lower
  have jUpper := opened.upper
  fun_induction shiftLoop lo hi key arr j with
  | case1 arr j notFirst ih =>
      rw [bind_of_ok (fetch_eq within ⟨by omega, by omega⟩)]
      split
      next greater =>
        have greater' := (gt_iff_element key).mp greater
        rcases opened.shift within upper notFirst greater' with ⟨opened', exchanged⟩
        rw [bind_of_ok (put_eq within ⟨lower, by omega⟩ _)]
        rcases ih _ (within.of_length (List.length_set ..)) opened' opened'.lower
          opened'.upper with ⟨arr', isShifted, reordered, ascending⟩
        exact ⟨arr', isShifted, exchanged.trans reordered, ascending⟩
      next notGreater =>
        apply opened.put within upper
        intro _
        rw [gt_iff_element] at notGreater
        omega
  | case2 arr j isFirst => exact opened.put within upper fun notFirst => (isFirst notFirst).elim

theorem insertionLoop_spec (within : Within lo hi arr) (lower : lo < i) (upper : i ≤ hi + 1)
    (ascending : Ascending lo (i - 1) arr) :
    ∃ arr', insertionLoop lo hi arr i = .ok arr' ∧ Reordered lo hi arr arr' ∧
      Ascending lo hi arr' := by
  have nonneg := within.nonneg
  have inMemory := within.inMemory
  fun_induction insertionLoop lo hi arr i with
  | case1 arr i more ih =>
      have isKey := fetch_eq within (i := i) ⟨by omega, more⟩
      have opened : Opened lo i (arr.getD i.toNat 0) arr i := by
        refine ⟨by omega, Int.le_refl i, ?_, fun k _ _ => by omega⟩
        intro a b aLower ordered bUpper aNot bNot
        exact ascending a b aLower ordered (by omega)
      rcases shiftLoop_spec within more opened with ⟨arr', isShifted, reordered, ascending'⟩
      have isSame : arr.set i.toNat (arr.getD i.toNat 0) = arr := by
        rw [List.getD_eq_getElem _ _ (by omega), List.set_getElem_self]
      rw [isSame] at reordered
      rcases ih arr' (within.reordered reordered) (by omega) (by omega) (by
        rw [Int.add_sub_cancel]
        exact ascending') (within.reordered reordered).inMemory with
        ⟨last, isLast, later, ascendingLast⟩
      refine ⟨last, ?_, reordered.trans later, ascendingLast⟩
      rw [bind_of_ok isKey, bind_of_ok isShifted]
      exact isLast
  | case2 arr i done =>
      have isEnd : i - 1 = hi := by omega
      rw [isEnd] at ascending
      exact ⟨arr, rfl, Shuffled.refl _ _ arr, ascending⟩

/-! ## Ranges -/

theorem Ascending.outside (ascending : Ascending a b arr) (reordered : Reordered lo hi arr arr')
    (nonneg : 0 ≤ a) (apart : b < lo ∨ hi < a) : Ascending a b arr' := by
  intro k l lower ordered upper
  rw [element_outside reordered (by omega) (by omega), element_outside reordered (by omega) (by omega)]
  exact ascending k l lower ordered upper

theorem Pivoted.left (pivoted : Pivoted lo hi arr i) (within : Within lo hi arr)
    (reordered : Reordered lo (i - 1) arr arr') : Pivoted lo hi arr' i := by
  rcases pivoted with ⟨lower, upper, below, above⟩
  have nonneg := within.nonneg
  have inMemory := within.inMemory
  have kept : element arr' i = element arr i := element_outside reordered (by omega) (by omega)
  refine ⟨lower, upper, ?_, ?_⟩
  · rw [kept]
    exact forall_element ⟨nonneg, by omega⟩ reordered (P := (· ≤ element arr i)) below
  · intro k first last
    rw [kept, element_outside reordered (by omega) (by omega)]
    exact above k first last

theorem Pivoted.right (pivoted : Pivoted lo hi arr i) (within : Within lo hi arr)
    (reordered : Reordered (i + 1) hi arr arr') : Pivoted lo hi arr' i := by
  rcases pivoted with ⟨lower, upper, below, above⟩
  have nonneg := within.nonneg
  have inMemory := within.inMemory
  have kept : element arr' i = element arr i := element_outside reordered (by omega) (by omega)
  refine ⟨lower, upper, ?_, ?_⟩
  · intro k first last
    rw [kept, element_outside reordered (by omega) (by omega)]
    exact below k first last
  · rw [kept]
    exact forall_element ⟨by omega, inMemory⟩ reordered (P := (element arr i ≤ ·)) above

theorem Pivoted.ascending (pivoted : Pivoted lo hi arr i) (left : Ascending lo (i - 1) arr)
    (right : Ascending (i + 1) hi arr) : Ascending lo hi arr := by
  rcases pivoted with ⟨lower, upper, below, above⟩
  have below' : ∀ k, lo ≤ k → k ≤ i → element arr k ≤ element arr i := by
    intro k first last
    by_cases isHere : k = i
    · rw [isHere]
    · exact below k first (by omega)
  have above' : ∀ k, i ≤ k → k ≤ hi → element arr i ≤ element arr k := by
    intro k first last
    by_cases isHere : k = i
    · rw [isHere]
    · exact above k (by omega) last
  intro a b aLower ordered bUpper
  by_cases bLeft : b ≤ i - 1
  · exact left a b aLower ordered bLeft
  · by_cases aRight : i + 1 ≤ a
    · exact right a b aRight ordered bUpper
    · exact Int.le_trans (below' a aLower (by omega)) (above' b (by omega) bUpper)

theorem depth_le {size part : Nat} (some : 2 ≤ size) (smaller : 2 * part ≤ size) :
    Nat.log 2 part + 1 ≤ Nat.log 2 size := by
  rw [Nat.log_of_one_lt_of_le Nat.one_lt_two some]
  exact Nat.succ_le_succ (Nat.log_mono_right (by omega))

/-- A range is sorted; no more calls are active at once than its length can be halved, and one. -/
theorem sortRange_spec (within : Within lo hi arr) :
    ∃ arr' depth, sortRange arr lo hi = .ok (arr', depth) ∧ Reordered lo hi arr arr' ∧
      Ascending lo hi arr' ∧ depth ≤ Nat.log 2 (hi + 1 - lo).toNat + 1 := by
  have nonneg := within.nonneg
  have inMemory := within.inMemory
  fun_induction sortRange arr lo hi with
  | case1 arr lo hi more small =>
      have single : Ascending lo (lo + 1 - 1) arr := by
        intro a b aLower ordered bUpper
        have same : a = b := by omega
        rw [same]
      rcases insertionLoop_spec within (i := lo + 1) (by omega) (by omega) single with
        ⟨arr', isSorted, reordered, ascending⟩
      exact ⟨arr', 1, by rw [bind_of_ok isSorted]; rfl, reordered, ascending, Nat.le_add_left 1 _⟩
  | case2 arr lo hi more large stop isError =>
      rcases partitionRange_spec within (by omega) with ⟨_, _, isOk, -⟩
      exact nomatch isOk.symm.trans isError
  | case3 arr lo hi more large arr₁ i isOk leftSmaller leftIh rightIh =>
      rcases partitionRange_spec within (by omega) with ⟨_, _, isOk', reordered₁, pivoted₁⟩
      cases isOk.symm.trans isOk'
      have lower := pivoted₁.lower
      have upper := pivoted₁.upper
      have within₁ := within.reordered reordered₁
      have leftWithin : Within lo (i - 1) arr₁ := within₁.mono (Int.le_refl lo) (by omega)
      rcases leftIh leftWithin leftWithin.nonneg leftWithin.inMemory with
        ⟨arr₂, deeper, isLeft, reordered₂, ascendingLeft, deeperLe⟩
      have pivoted₂ := pivoted₁.left within₁ reordered₂
      have within₂ := within₁.of_length reordered₂.length_eq
      have rightWithin : Within (i + 1) hi arr₂ := within₂.mono (by omega) (Int.le_refl hi)
      rcases rightIh arr₂ rightWithin rightWithin.nonneg rightWithin.inMemory with
        ⟨arr₃, depth, isRight, reordered₃, ascendingRight, depthLe⟩
      have pivoted₃ := pivoted₂.right within₂ reordered₃
      refine ⟨arr₃, max (deeper + 1) depth, ?_, ?_, ?_, ?_⟩
      · rw [bind_of_ok isLeft]
        exact bind_of_ok isRight _
      · exact reordered₁.trans ((reordered₂.mono (Nat.le_refl _) (by omega)).trans
          (reordered₃.mono (by omega) (Nat.le_refl _)))
      · exact pivoted₃.ascending (ascendingLeft.outside reordered₃ nonneg (by omega)) ascendingRight
      · have part : Nat.log 2 (i - 1 + 1 - lo).toNat + 1 ≤ Nat.log 2 (hi + 1 - lo).toNat :=
          depth_le (by omega) (by omega)
        have rest : Nat.log 2 (hi + 1 - (i + 1)).toNat ≤ Nat.log 2 (hi + 1 - lo).toNat :=
          Nat.log_mono_right (by omega)
        omega
  | case4 arr lo hi more large arr₁ i isOk notSmaller rightIh leftIh =>
      rcases partitionRange_spec within (by omega) with ⟨_, _, isOk', reordered₁, pivoted₁⟩
      cases isOk.symm.trans isOk'
      have lower := pivoted₁.lower
      have upper := pivoted₁.upper
      have within₁ := within.reordered reordered₁
      have rightWithin : Within (i + 1) hi arr₁ := within₁.mono (by omega) (Int.le_refl hi)
      rcases rightIh rightWithin rightWithin.nonneg rightWithin.inMemory with
        ⟨arr₂, deeper, isRight, reordered₂, ascendingRight, deeperLe⟩
      have pivoted₂ := pivoted₁.right within₁ reordered₂
      have within₂ := within₁.of_length reordered₂.length_eq
      have leftWithin : Within lo (i - 1) arr₂ := within₂.mono (Int.le_refl lo) (by omega)
      rcases leftIh arr₂ leftWithin leftWithin.nonneg leftWithin.inMemory with
        ⟨arr₃, depth, isLeft, reordered₃, ascendingLeft, depthLe⟩
      have pivoted₃ := pivoted₂.left within₂ reordered₃
      refine ⟨arr₃, max (deeper + 1) depth, ?_, ?_, ?_, ?_⟩
      · rw [bind_of_ok isRight]
        exact bind_of_ok isLeft _
      · exact reordered₁.trans ((reordered₂.mono (by omega) (Nat.le_refl _)).trans
          (reordered₃.mono (Nat.le_refl _) (by omega)))
      · exact pivoted₃.ascending ascendingLeft
          (ascendingRight.outside reordered₃ (by omega) (by omega))
      · have part : Nat.log 2 (hi + 1 - (i + 1)).toNat + 1 ≤ Nat.log 2 (hi + 1 - lo).toNat :=
          depth_le (by omega) (by omega)
        have rest : Nat.log 2 (i - 1 + 1 - lo).toNat ≤ Nat.log 2 (hi + 1 - lo).toNat :=
          Nat.log_mono_right (by omega)
        omega
  | case5 arr lo hi done =>
      refine ⟨arr, 1, rfl, Shuffled.refl _ _ arr, ?_, Nat.le_add_left 1 _⟩
      intro a b aLower ordered bUpper
      have same : a = b := by omega
      rw [same]

theorem Ascending.pairwise {n : Nat} (ascending : Ascending 0 (n - 1) arr)
    (inMemory : n ≤ arr.length) :
    (arr.take n).Pairwise (· ≤ ·) := by
  rw [List.pairwise_iff_getElem]
  intro i j iWithin jWithin ordered
  rw [List.length_take] at iWithin jWithin
  rw [List.getElem_take, List.getElem_take, Int64.le_iff_toInt_le]
  have atMost := ascending i j (by omega) (by omega) (by omega)
  rw [element, element, Int.toNat_natCast, Int.toNat_natCast, List.getD_eq_getElem _ _ (by omega),
    List.getD_eq_getElem _ _ (by omega)] at atMost
  exact atMost

theorem sortAll_spec {nd : List Int64} {n : Nat} (inMemory : n ≤ nd.length) :
    ∃ nd' depth, sortAll n nd = .ok (nd', depth) ∧ Shuffled 0 n nd nd' ∧
      (nd'.take n).Pairwise (· ≤ ·) ∧ depth ≤ Nat.log 2 n + 1 := by
  rw [sortAll]
  split
  next some =>
    have within : Within 0 (n - 1) nd := ⟨Int.le_refl 0, by omega⟩
    rcases sortRange_spec within with
      ⟨nd', depth, isSorted, reordered, ascending, atMost⟩
    refine ⟨nd', depth, isSorted, reordered.mono (Nat.zero_le _) (by omega), ascending.pairwise
      (by rw [reordered.length_eq]; exact inMemory), ?_⟩
    rwa [Int.sub_add_cancel, Int.sub_zero, Int.toNat_natCast] at atMost
  next few =>
    refine ⟨nd, 0, rfl, Shuffled.refl 0 n nd, ?_, Nat.zero_le _⟩
    rw [List.pairwise_iff_getElem]
    intro i j _ within ordered
    rw [List.length_take] at within
    omega

/-- The handle that is returned is new: behind it is an ascending list with the elements of the
list behind the handle that is given, and behind all others there is what was there.  No more
calls of `sort_i64_range` were active at once than the length can be halved, and one. -/
def Sorts (lists : List (List Int64)) (unsorted : List Int64) (result : Heap × Nat × Nat) : Prop :=
  ∃ sorted, Refines result.1 (lists ++ [sorted]) ∧ result.2.1 = lists.length ∧
    sorted.Pairwise (· ≤ ·) ∧ sorted.Perm unsorted ∧ result.2.2 ≤ Nat.log 2 unsorted.length + 1

/-- An array is sorted unless the new one cannot be allocated; no access leaves its range. -/
theorem tinoxArraySort_sorts (available : Nat → Bool) {heap : Heap} {lists : List (List Int64)}
    (refines : Refines heap lists) {h : Nat} (valid : h < lists.length) :
    Yields (Sorts lists lists[h])
      (fun stop => tinoxArrayNew available lists[h].length 0 = .error stop)
      (tinoxArraySort available heap h) := by
  rcases refines.behind (refines.length ▸ valid) with ⟨a, isBehind, wellFormed, same, -⟩
  rw [List.getD_eq_getElem _ _ valid] at same
  have nonneg := wellFormed.nonneg
  have le_cap := wellFormed.le_cap
  have allocated := wellFormed.allocated
  rcases Int.eq_ofNat_of_zero_le nonneg with ⟨n, isLen⟩
  have length : a.contents.length = n := by
    have length := wellFormed.length_contents
    omega
  rw [same, tinoxArraySort, bind_of_ok isBehind, length, isLen]
  have created := @TinoxArray.WellFormed.copy_yields available a wellFormed
  rw [isLen] at created
  cases isNew : tinoxArrayNew available n 0 with
  | error stop => exact rfl
  | ok nh =>
      rw [isNew] at created
      rcases created with ⟨newFormed, newLen⟩
      have newAllocated := newFormed.allocated
      have newRoom := newFormed.le_cap
      have isMoved : moved a nh.data = .ok (a.data.take n ++ nh.data.drop n) :=
        moved_eq isLen (by omega) (by omega)
      have isFront : (a.data.take n).length = n := by
        rw [List.length_take]
        omega
      have inMemory : n ≤ (a.data.take n ++ nh.data.drop n).length := by
        rw [List.length_append]
        omega
      rcases sortAll_spec inMemory with ⟨nd, depth, isSorted, shuffled, ascending, atMost⟩
      have sameLength : nd.length = nh.data.length := by
        rw [shuffled.length_eq, List.length_append, List.length_drop]
        omega
      rw [bind_of_ok rfl, bind_of_ok isMoved, bind_of_ok isSorted]
      refine ⟨nd.take n, ?_, refines.length, ascending, ?_, by rw [length]; exact atMost⟩
      · apply refines.append (wellFormed_with newFormed newFormed.nonneg newRoom sameLength)
        rw [TinoxArray.contents, newLen, Int.toNat_natCast]
      · have perm := shuffled.segment (Nat.zero_le n)
        rw [List.drop_zero, List.drop_zero, List.take_append_of_le_length (by omega),
          List.take_take, Nat.min_self] at perm
        rw [TinoxArray.contents, isLen, Int.toNat_natCast]
        exact perm

/-- A list of three elements. -/
def unsorted : Heap :=
  [⟨3, 4, [3, -1, 2, 0]⟩]

theorem unsorted_refines : Refines unsorted [[3, -1, 2]] where
  contents := rfl
  wellFormed := by
    rintro a (_ | ⟨_, ⟨⟩⟩)
    exact ⟨by decide, by decide, rfl, by decide⟩

theorem tinoxArraySort_unsorted :
    Yields (Sorts [[3, -1, 2]] [3, -1, 2])
      (fun stop => tinoxArrayNew (fun _ => true) 3 0 = .error stop)
      (tinoxArraySort (fun _ => true) unsorted 0) :=
  tinoxArraySort_sorts (fun _ => true) unsorted_refines (h := 0) Nat.zero_lt_one

end Tinox.Runtime.Arrays
