import Mathlib.Algebra.Group.Int.Defs
import Mathlib.Algebra.Group.Nat.Defs
import Mathlib.Data.List.GetD

/-!
# Runtime arrays

Handles of arrays that grow.  Lengths and indices are 64-bit integers that wrap
around; loads, stores and copies are checked against the allocated memory, which
the code itself does not do.
-/

namespace Tinox.Runtime.Arrays

/-- Ways in which a call does not return: an error that is reported, an access
outside of the allocated memory, or no more memory. -/
inductive Stop where
  | exit | outOfBounds | memory
  deriving DecidableEq

/-- `TinoxArray`, with the memory that is allocated for `data`. -/
structure TinoxArray where
  len : Int
  cap : Int
  data : List Int64
  deriving DecidableEq

/-- The value of a 64-bit operation. -/
def wrap (x : Int) : Int :=
  (x + 2 ^ 63) % 2 ^ 64 - 2 ^ 63

/-- A conversion to `size_t`. -/
def sizeT (x : Int) : Nat :=
  (x % 2 ^ 64).toNat

/-- Allocate zeroed memory; no object takes half of the address space. -/
def gcMalloc (available : Nat → Bool) (bytes : Nat) : Except Stop (List Int64) :=
  if bytes < 2 ^ 63 ∧ available bytes = true then .ok (List.replicate (bytes / 8) 0)
  else .error .memory

/-- Read an element. -/
def load (data : List Int64) (i : Int) : Except Stop Int64 :=
  if 0 ≤ i ∧ i < data.length then .ok (data.getD i.toNat 0) else .error .outOfBounds

/-- Write an element. -/
def store (data : List Int64) (i : Int) (value : Int64) : Except Stop (List Int64) :=
  if 0 ≤ i ∧ i < data.length then .ok (data.set i.toNat value) else .error .outOfBounds

/-- `memcpy` and `memmove` of `n` elements. -/
def copy (dst : List Int64) (dstAt : Int) (src : List Int64) (srcAt n : Int) :
    Except Stop (List Int64) :=
  if 0 ≤ n ∧ 0 ≤ dstAt ∧ dstAt + n ≤ dst.length ∧ 0 ≤ srcAt ∧ srcAt + n ≤ src.length then
    .ok (dst.take dstAt.toNat ++ (src.drop srcAt.toNat).take n.toNat ++ dst.drop (dstAt + n).toNat)
  else .error .outOfBounds

section Operations

variable (available : Nat → Bool)

/-- The capacity of a new array (in `tinox_array_new`). -/
def newCap (len cap : Int) : Int :=
  let cap := if cap < len then len else cap
  if cap < 4 then 4 else cap

/-- `tinox_array_new`. -/
def tinoxArrayNew (len cap : Int) : Except Stop TinoxArray :=
  if newCap len cap < 0 ∨ sizeT (newCap len cap) > (2 ^ 64 - 1) / 8 then .error .exit
  else do
    let data ← gcMalloc available (sizeT (newCap len cap) * 8 % 2 ^ 64)
    pure ⟨len, newCap len cap, data⟩

/-- `tinox_array_get`. -/
def tinoxArrayGet (a : TinoxArray) (idx : Int) : Except Stop Int64 :=
  if idx < 0 ∨ idx ≥ a.len then .error .exit else load a.data idx

/-- The capacity of a full array that grows (`ncap`). -/
def grownCap (cap : Int) : Int :=
  if cap < 4 then 4 else wrap (cap * 2)

/-- Copy the elements of a full array that grows. -/
def moved (a : TinoxArray) (nd : List Int64) : Except Stop (List Int64) :=
  if a.len > 0 then copy nd 0 a.data 0 a.len else pure nd

/-- Double the memory of a full array (in `tinox_array_push` and `tinox_array_insert`). -/
def grow (a : TinoxArray) : Except Stop TinoxArray :=
  if a.len = a.cap then do
    let nd ← gcMalloc available (sizeT (grownCap a.cap) * 8 % 2 ^ 64)
    let nd ← moved a nd
    pure ⟨a.len, grownCap a.cap, nd⟩
  else pure a

/-- `tinox_array_push`. -/
def tinoxArrayPush (a : TinoxArray) (val : Int64) : Except Stop TinoxArray := do
  let a ← grow available a
  let data ← store a.data a.len val
  pure ⟨wrap (a.len + 1), a.cap, data⟩

/-- `tinox_array_pop`. -/
def tinoxArrayPop (a : TinoxArray) : TinoxArray :=
  if a.len > 0 then ⟨a.len - 1, a.cap, a.data⟩ else a

/-- `tinox_array_insert`. -/
def tinoxArrayInsert (a : TinoxArray) (idx : Int) (val : Int64) : Except Stop TinoxArray := do
  let idx := if idx < 0 then 0 else idx
  let idx := if idx > a.len then a.len else idx
  let a ← grow available a
  let data ← copy a.data (idx + 1) a.data idx (a.len - idx)
  let data ← store data idx val
  pure ⟨wrap (a.len + 1), a.cap, data⟩

/-- The loop of `tinox_array_remove_at`, with `n` rounds left. -/
def shiftDown : Nat → Int → List Int64 → Except Stop (List Int64)
  | 0, _, data => pure data
  | n + 1, i, data => do
      let value ← load data (i + 1)
      let data ← store data i value
      shiftDown n (i + 1) data

/-- `tinox_array_remove_at`. -/
def tinoxArrayRemoveAt (a : TinoxArray) (idx : Int) : Except Stop TinoxArray :=
  if idx < 0 ∨ idx ≥ a.len then pure a
  else do
    let data ← shiftDown (a.len - 1 - idx).toNat idx a.data
    pure ⟨a.len - 1, a.cap, data⟩

/-- `tinox_array_slice`. -/
def tinoxArraySlice (a : TinoxArray) (start stop : Int) : Except Stop TinoxArray := do
  let start := if start < 0 then 0 else start
  let stop := if stop > a.len then a.len else stop
  let len := wrap (stop - start)
  let len := if len < 0 then 0 else len
  let nh ← tinoxArrayNew available len 0
  if len > 0 then do
    let data ← copy nh.data 0 a.data start len
    pure ⟨nh.len, nh.cap, data⟩
  else pure nh

/-- The loop of `tinox_array_reverse`, with `n` rounds left. -/
def copyBack (a : TinoxArray) : Nat → Int → List Int64 → Except Stop (List Int64)
  | 0, _, nd => pure nd
  | n + 1, i, nd => do
      let value ← load a.data (a.len - 1 - i)
      let nd ← store nd i value
      copyBack a n (i + 1) nd

/-- `tinox_array_reverse`. -/
def tinoxArrayReverse (a : TinoxArray) : Except Stop TinoxArray := do
  let nh ← tinoxArrayNew available a.len 0
  let data ← copyBack a a.len.toNat 0 nh.data
  pure ⟨nh.len, nh.cap, data⟩

end Operations

/-- A call returns such a value or stops in such a way. -/
def Yields {α : Type} (value : α → Prop) (stops : Stop → Prop) : Except Stop α → Prop
  | .ok a => value a
  | .error stop => stops stop

theorem Yields.bind {α β : Type} {value : α → Prop} {value' : β → Prop} {stops : Stop → Prop}
    {call : Except Stop α} {next : α → Except Stop β} (first : Yields value stops call)
    (rest : ∀ a, value a → Yields value' stops (next a)) : Yields value' stops (call >>= next) := by
  cases call with
  | ok a => exact rest a first
  | error stop => exact first

theorem Yields.mono {α : Type} {value value' : α → Prop} {stops stops' : Stop → Prop}
    {call : Except Stop α} (yields : Yields value stops call) (values : ∀ a, value a → value' a)
    (more : ∀ stop, stops stop → stops' stop) : Yields value' stops' call := by
  cases call with
  | ok a => exact values a yields
  | error stop => exact more stop yields

theorem bind_of_ok {α β : Type} {call : Except Stop α} {a : α} (isOk : call = .ok a)
    (next : α → Except Stop β) : (call >>= next) = next a := by
  rw [isOk]
  rfl

theorem exists_of_bind_ok {α β : Type} {call : Except Stop α} {next : α → Except Stop β}
    {result : β} (isOk : (call >>= next) = .ok result) :
    ∃ a, call = .ok a ∧ next a = .ok result := by
  cases call with
  | error stop => exact nomatch isOk
  | ok a => exact ⟨a, rfl, isOk⟩

theorem wrap_eq {x : Int} (lower : -2 ^ 63 ≤ x) (upper : x < 2 ^ 63) : wrap x = x := by
  rw [wrap, Int.emod_eq_of_lt (by omega) (by omega)]
  omega

theorem gcMalloc_yields (available : Nat → Bool) (bytes : Nat) :
    Yields (fun data => bytes < 2 ^ 63 ∧ data = List.replicate (bytes / 8) 0) (· = .memory)
      (gcMalloc available bytes) := by
  rw [gcMalloc]
  split
  · next enough => exact ⟨enough.1, rfl⟩
  · exact rfl

theorem load_eq {data : List Int64} {i : Nat} (inside : i < data.length) :
    load data i = .ok data[i] := by
  rw [load, if_pos ⟨Int.natCast_nonneg i, Int.ofNat_lt.mpr inside⟩, Int.toNat_natCast,
    List.getD_eq_getElem data 0 inside]

theorem store_eq {data : List Int64} {i : Nat} (inside : i < data.length) (value : Int64) :
    store data i value = .ok (data.set i value) := by
  rw [store, if_pos ⟨Int.natCast_nonneg i, Int.ofNat_lt.mpr inside⟩, Int.toNat_natCast]

/-- The elements of an array. -/
def TinoxArray.contents (a : TinoxArray) : List Int64 :=
  a.data.take a.len.toNat

/-- The length is within the memory, which has a size that can be allocated. -/
structure TinoxArray.WellFormed (a : TinoxArray) : Prop where
  nonneg : 0 ≤ a.len
  le_cap : a.len ≤ a.cap
  allocated : (a.data.length : Int) = a.cap
  size : a.cap * 8 < 2 ^ 63

theorem copy_eq {dst src : List Int64} {dstAt srcAt n : Nat} (room : dstAt + n ≤ dst.length)
    (enough : srcAt + n ≤ src.length) : copy dst dstAt src srcAt n =
      .ok (dst.take dstAt ++ (src.drop srcAt).take n ++ dst.drop (dstAt + n)) := by
  rw [copy, if_pos (by omega), Int.toNat_natCast, Int.toNat_natCast, Int.toNat_natCast,
    ← Int.natCast_add, Int.toNat_natCast]

section Single

variable {available : Nat → Bool} {a : TinoxArray}

theorem allocate_yields {cap : Int} (nonneg : 0 ≤ cap) (small : cap ≤ (2 ^ 64 - 1) / 8) :
    Yields (fun data => cap * 8 < 2 ^ 63 ∧ data = List.replicate cap.toNat 0) (· = .memory)
      (gcMalloc available (sizeT cap * 8 % 2 ^ 64)) := by
  have same : sizeT cap * 8 % 2 ^ 64 = cap.toNat * 8 := by
    rw [sizeT]
    omega
  rw [same]
  apply (gcMalloc_yields available (cap.toNat * 8)).mono _ fun _ => id
  rintro data ⟨size, rfl⟩
  exact ⟨by omega, by rw [Nat.mul_div_cancel _ (by decide)]⟩

theorem tinoxArrayNew_yields {len cap : Int} (nonneg : 0 ≤ len) (lenUpper : len < 2 ^ 63)
    (capUpper : cap < 2 ^ 63) :
    Yields (fun a => a.WellFormed ∧ a.len = len ∧ a.contents = List.replicate len.toNat 0)
      (fun stop => stop = .memory ∨ (stop = .exit ∧ (2 ^ 64 - 1) / 8 < max len cap))
      (tinoxArrayNew available len cap) := by
  rw [tinoxArrayNew]
  have bounds : len ≤ newCap len cap ∧ 4 ≤ newCap len cap ∧ newCap len cap < 2 ^ 63 ∧
      (newCap len cap = 4 ∨ newCap len cap = max len cap) := by
    rw [newCap]
    omega
  generalize newCap len cap = newCap at bounds
  by_cases invalid : newCap < 0 ∨ sizeT newCap > (2 ^ 64 - 1) / 8
  · rw [if_pos invalid]
    refine Or.inr ⟨rfl, ?_⟩
    rw [sizeT] at invalid
    omega
  · rw [if_neg invalid]
    rw [sizeT] at invalid
    apply Yields.bind ((allocate_yields (by omega) (by omega)).mono (fun _ => id) fun _ => Or.inl)
    rintro data ⟨size, rfl⟩
    refine ⟨⟨nonneg, bounds.1, ?_, size⟩, rfl, ?_⟩
    · change ((List.replicate newCap.toNat (0 : Int64)).length : Int) = newCap
      rw [List.length_replicate]
      omega
    · change (List.replicate newCap.toNat (0 : Int64)).take len.toNat = _
      rw [List.take_replicate, Nat.min_eq_left (by omega)]

theorem moved_eq {n : Nat} (isLen : a.len = n) (inMemory : n ≤ a.data.length) {nd : List Int64}
    (room : n ≤ nd.length) : moved a nd = .ok (a.data.take n ++ nd.drop n) := by
  rw [moved]
  by_cases some_ : a.len > 0
  · rw [if_pos some_, isLen, ← Int.natCast_zero, copy_eq (by omega) (by omega), List.take_zero,
      List.nil_append, List.drop_zero, Nat.zero_add]
  · have isZero : n = 0 := by omega
    subst isZero
    rw [if_neg some_]
    rfl

theorem grow_yields (wellFormed : a.WellFormed) :
    Yields (fun b => b.WellFormed ∧ b.len = a.len ∧ a.len < b.cap ∧ b.contents = a.contents)
      (· = .memory) (grow available a) := by
  have nonneg := wellFormed.nonneg
  have le_cap := wellFormed.le_cap
  have size := wellFormed.size
  have allocated := wellFormed.allocated
  rw [grow]
  by_cases full : a.len = a.cap
  · rw [if_pos full]
    have bounds : a.cap < grownCap a.cap ∧ (grownCap a.cap = 4 ∨ grownCap a.cap = a.cap * 2) := by
      rw [grownCap]
      split
      · omega
      · rw [wrap_eq (by omega) (by omega)]
        omega
    generalize grownCap a.cap = ncap at bounds
    apply Yields.bind (allocate_yields (by omega) (by omega))
    rintro nd ⟨newSize, rfl⟩
    rcases Int.eq_ofNat_of_zero_le nonneg with ⟨n, isLen⟩
    have copied : moved a (List.replicate ncap.toNat 0) =
        .ok (a.data.take n ++ List.replicate (ncap.toNat - n) 0) := by
      rw [moved_eq isLen (by omega) (by rw [List.length_replicate]; omega), List.drop_replicate]
    rw [copied]
    have lower : a.len < ncap := by omega
    refine ⟨⟨nonneg, Int.le_of_lt lower, ?_, newSize⟩, rfl, lower, ?_⟩
    · change ((a.data.take n ++ List.replicate (ncap.toNat - n) 0).length : Int) = ncap
      rw [List.length_append, List.length_take, List.length_replicate]
      omega
    · rw [TinoxArray.contents, TinoxArray.contents, isLen, Int.toNat_natCast,
        List.take_append_of_le_length, List.take_take, Nat.min_self]
      rw [List.length_take]
      omega
  · rw [if_neg full]
    exact ⟨wellFormed, rfl, by omega, rfl⟩

theorem TinoxArray.WellFormed.length_contents (wellFormed : a.WellFormed) :
    (a.contents.length : Int) = a.len := by
  have nonneg := wellFormed.nonneg
  have le_cap := wellFormed.le_cap
  have allocated := wellFormed.allocated
  rw [TinoxArray.contents, List.length_take]
  omega

theorem wellFormed_with (wellFormed : a.WellFormed) {len : Int} {data : List Int64}
    (nonneg : 0 ≤ len) (le_cap : len ≤ a.cap) (sameLength : data.length = a.data.length) :
    (⟨len, a.cap, data⟩ : TinoxArray).WellFormed :=
  ⟨nonneg, le_cap, by rw [sameLength]; exact wellFormed.allocated, wellFormed.size⟩

theorem tinoxArrayPush_yields (wellFormed : a.WellFormed) (val : Int64) :
    Yields (fun b => b.WellFormed ∧ b.contents = a.contents ++ [val]) (· = .memory)
      (tinoxArrayPush available a val) := by
  rw [tinoxArrayPush]
  apply (grow_yields wellFormed).bind
  rintro b ⟨bFormed, sameLen, room, sameContents⟩
  have nonneg := bFormed.nonneg
  have allocated := bFormed.allocated
  have size := bFormed.size
  rcases Int.eq_ofNat_of_zero_le nonneg with ⟨n, isLen⟩
  have inside : n < b.data.length := by omega
  rw [isLen, store_eq inside, wrap_eq (by omega) (by omega)]
  refine ⟨wellFormed_with bFormed (by omega) (by omega) List.length_set, ?_⟩
  rw [← sameContents, TinoxArray.contents, TinoxArray.contents, isLen, Int.toNat_natCast]
  change (b.data.set n val).take (n + 1) = _
  rw [List.take_add_one, List.getElem?_set_self inside, List.take_set_of_le (Nat.le_refl n)]
  rfl

theorem tinoxArrayPop_spec (wellFormed : a.WellFormed) :
    (tinoxArrayPop a).WellFormed ∧ (tinoxArrayPop a).contents = a.contents.dropLast := by
  have length := wellFormed.length_contents
  have le_cap := wellFormed.le_cap
  rw [tinoxArrayPop]
  by_cases some_ : a.len > 0
  · rw [if_pos some_]
    refine ⟨wellFormed_with wellFormed (by omega) (by omega) rfl, ?_⟩
    rw [List.dropLast_eq_take, TinoxArray.contents, TinoxArray.contents, List.take_take]
    rw [TinoxArray.contents] at length
    congr 1
    change (a.len - 1).toNat = _
    omega
  · rw [if_neg some_]
    have isEmpty : a.contents = [] := List.eq_nil_of_length_eq_zero (by omega)
    rw [isEmpty]
    exact ⟨wellFormed, rfl⟩

theorem set_shifted {α : Type} {d : List α} {i n : Nat} (below : i ≤ n) (room : n < d.length)
    (val : α) :
    ((d.take (i + 1) ++ (d.drop i).take (n - i) ++ d.drop (i + 1 + (n - i))).set i val).take (n + 1) =
      (d.take n).take i ++ val :: (d.take n).drop i := by
  have inside : i < d.length := Nat.lt_of_le_of_lt below room
  have front : d.take (i + 1) = d.take i ++ [d[i]] := by
    rw [List.take_add_one, List.getElem?_eq_getElem inside]
    rfl
  have length : (d.take i).length = i := List.length_take_of_le (Nat.le_of_lt inside)
  have middle : ((d.drop i).take (n - i)).length = n - i := by
    rw [List.length_take, List.length_drop]
    omega
  calc
    _ = (d.take i ++ val :: ((d.drop i).take (n - i) ++ d.drop (i + 1 + (n - i)))).take (n + 1) := by
      rw [front, List.append_assoc, List.append_assoc, List.set_append_right _ _ (Nat.le_of_eq length),
        length, Nat.sub_self]
      rfl
    _ = d.take i ++ val :: (d.drop i).take (n - i) := by
      rw [List.take_append, List.take_of_length_le (by omega), length,
        show n + 1 - i = n - i + 1 by omega, List.take_succ_cons, List.take_left' middle]
    _ = (d.take n).take i ++ val :: (d.take n).drop i := by
      rw [List.take_take, Nat.min_eq_left below, List.drop_take]

/-- An index between the ends of a list. -/
def clamp (idx len : Int) : Nat :=
  (min (max idx 0) len).toNat

theorem tinoxArrayInsert_yields (wellFormed : a.WellFormed) (idx : Int) (val : Int64) :
    Yields (fun b => b.WellFormed ∧
        b.contents = a.contents.take (clamp idx a.len) ++ val :: a.contents.drop (clamp idx a.len))
      (· = .memory) (tinoxArrayInsert available a idx val) := by
  have nonneg := wellFormed.nonneg
  rw [tinoxArrayInsert]
  have clamped : (if (if idx < 0 then 0 else idx) > a.len then a.len
      else if idx < 0 then 0 else idx) = (clamp idx a.len : Int) := by
    rw [clamp]
    omega
  rw [clamped]
  have below : (clamp idx a.len : Int) ≤ a.len := by
    rw [clamp]
    omega
  generalize clamp idx a.len = i at below
  apply (grow_yields wellFormed).bind
  rintro b ⟨bFormed, sameLen, room, sameContents⟩
  have allocated := bFormed.allocated
  have size := bFormed.size
  rcases Int.eq_ofNat_of_zero_le nonneg with ⟨n, isLen⟩
  have shifted := @copy_eq b.data b.data (i + 1) i (n - i) (by omega) (by omega)
  have counted : ((n - i : Nat) : Int) = a.len - i := by omega
  rw [counted, Int.natCast_add, Int.natCast_one] at shifted
  rw [sameLen, shifted]
  have sameLength : (b.data.take (i + 1) ++ (b.data.drop i).take (n - i) ++
      b.data.drop (i + 1 + (n - i))).length = b.data.length := by
    simp only [List.length_append, List.length_take, List.length_drop]
    omega
  have inside : i < (b.data.take (i + 1) ++ (b.data.drop i).take (n - i) ++
      b.data.drop (i + 1 + (n - i))).length := by omega
  have stored := store_eq inside val
  change Yields _ _ (store _ (i : Int) val >>= _)
  rw [stored, isLen, wrap_eq (by omega) (by omega)]
  refine ⟨wellFormed_with bFormed (by omega) (by omega) (List.length_set.trans sameLength), ?_⟩
  rw [← sameContents, TinoxArray.contents, TinoxArray.contents, sameLen, isLen, Int.toNat_natCast]
  exact set_shifted (by omega) (by omega) val

theorem shiftDown_eq (n i : Nat) (data : List Int64) (room : i + n < data.length) :
    ∃ result, shiftDown n i data = .ok result ∧ result.length = data.length ∧
      ∀ j, result[j]? = if i ≤ j ∧ j < i + n then data[j + 1]? else data[j]? := by
  induction n generalizing i data with
  | zero => exact ⟨data, rfl, rfl, fun j => by rw [if_neg (by omega)]⟩
  | succ n ih =>
      rw [shiftDown, ← Int.natCast_one, ← Int.natCast_add, load_eq (by omega)]
      change ∃ result, (store data i _ >>= _) = _ ∧ _
      rw [store_eq (by omega)]
      have inside : i + 1 < data.length := by omega
      rcases ih (i + 1) (data.set i data[i + 1])
        (by rw [List.length_set]; omega) with ⟨result, done, sameLength, moved⟩
      refine ⟨result, done, sameLength.trans List.length_set, fun j => ?_⟩
      rw [moved j]
      by_cases within : i + 1 ≤ j ∧ j < i + 1 + n
      · rw [if_pos within, if_pos (by omega), List.getElem?_set_ne (by omega)]
      · rw [if_neg within]
        by_cases here : j = i
        · subst here
          rw [List.getElem?_set_self (by omega), if_pos (by omega), List.getElem?_eq_getElem]
        · rw [List.getElem?_set_ne (Ne.symm here), if_neg (by omega)]

theorem tinoxArrayRemoveAt_yields (wellFormed : a.WellFormed) (idx : Int) :
    Yields (fun b => b.WellFormed ∧
        b.contents = if idx < 0 then a.contents else a.contents.eraseIdx idx.toNat)
      (fun _ => False) (tinoxArrayRemoveAt a idx) := by
  have length := wellFormed.length_contents
  have le_cap := wellFormed.le_cap
  have allocated := wellFormed.allocated
  rw [tinoxArrayRemoveAt]
  by_cases outside : idx < 0 ∨ idx ≥ a.len
  · rw [if_pos outside]
    refine ⟨wellFormed, ?_⟩
    by_cases negative : idx < 0
    · rw [if_pos negative]
    · rw [if_neg negative, List.eraseIdx_of_length_le (by omega)]
  · rw [if_neg outside]
    rcases Int.eq_ofNat_of_zero_le (show 0 ≤ idx by omega) with ⟨i, rfl⟩
    rcases Int.eq_ofNat_of_zero_le wellFormed.nonneg with ⟨n, isLen⟩
    have rounds : (a.len - 1 - i).toNat = n - 1 - i := by omega
    rcases shiftDown_eq (n - 1 - i) i a.data (by omega) with
      ⟨result, done, sameLength, moved⟩
    rw [rounds, done]
    refine ⟨wellFormed_with wellFormed (by omega) (by omega) sameLength, ?_⟩
    rw [if_neg (by omega), Int.toNat_natCast, TinoxArray.contents, TinoxArray.contents]
    change result.take (a.len - 1).toNat = _
    rw [isLen, Int.toNat_natCast, show ((n : Int) - 1).toNat = n - 1 by omega]
    apply List.ext_getElem?
    intro j
    rw [List.getElem?_take, moved j, List.getElem?_eraseIdx, List.getElem?_take, List.getElem?_take]
    by_cases before : j < i
    · rw [if_pos before, if_pos (by omega), if_neg (by omega), if_pos (by omega)]
    · rw [if_neg before]
      by_cases inside : j < n - 1
      · rw [if_pos inside, if_pos (by omega), if_pos (by omega)]
      · rw [if_neg inside, if_neg (by omega)]

theorem tinoxArraySlice_yields (wellFormed : a.WellFormed) {start stop : Int}
    (startUpper : start < 2 ^ 63) (stopLower : -2 ^ 63 ≤ stop) (near : start - 2 ^ 63 ≤ stop) :
    Yields (fun b => b.WellFormed ∧
        b.contents = (a.contents.take stop.toNat).drop start.toNat) (· = .memory)
      (tinoxArraySlice available a start stop) := by
  have nonneg := wellFormed.nonneg
  have le_cap := wellFormed.le_cap
  have allocated := wellFormed.allocated
  have size := wellFormed.size
  rw [tinoxArraySlice]
  have isStart : (if start < 0 then 0 else start) = (start.toNat : Int) := by omega
  rw [isStart]
  have isLen : (if wrap ((if stop > a.len then a.len else stop) - start.toNat) < 0 then 0
      else wrap ((if stop > a.len then a.len else stop) - start.toNat)) =
      ((min stop.toNat a.len.toNat - start.toNat : Nat) : Int) := by
    rw [wrap_eq (by omega) (by omega)]
    omega
  rw [isLen]
  generalize isCount : min stop.toNat a.len.toNat - start.toNat = n
  have small : ¬ (2 ^ 64 - 1) / 8 < max (n : Int) 0 := by omega
  have created : Yields
      (fun b : TinoxArray => b.WellFormed ∧ b.len = (n : Int) ∧ b.contents = List.replicate n 0)
      (· = .memory) (tinoxArrayNew available n 0) := by
    apply (tinoxArrayNew_yields (by omega) (by omega) (by omega)).mono (fun _ => id)
    rintro reason (rfl | ⟨-, large⟩)
    · rfl
    · exact absurd large small
  apply created.bind
  rintro nh ⟨newFormed, newLen, newContents⟩
  have newAllocated := newFormed.allocated
  have newRoom := newFormed.le_cap
  by_cases some_ : (n : Int) > 0
  · rw [if_pos some_]
    have copied := @copy_eq nh.data a.data 0 start.toNat n (by omega) (by omega)
    rw [Int.natCast_zero] at copied
    rw [copied]
    refine ⟨wellFormed_with newFormed (by omega) newRoom ?_, ?_⟩
    · simp only [List.length_append, List.length_take, List.length_drop]
      omega
    · rw [TinoxArray.contents, TinoxArray.contents, List.take_take, List.drop_take, isCount]
      change (nh.data.take 0 ++ (a.data.drop start.toNat).take n ++ nh.data.drop (0 + n)).take
        nh.len.toNat = _
      have length : ((a.data.drop start.toNat).take n).length = n := by
        rw [List.length_take, List.length_drop]
        omega
      rw [newLen, Int.toNat_natCast, List.take_zero, List.nil_append, List.take_left' length]
  · rw [if_neg some_]
    have isZero : n = 0 := by omega
    refine ⟨newFormed, ?_⟩
    rw [newContents, isZero, TinoxArray.contents, List.take_take, List.drop_take, isCount, isZero]
    rfl

/-- The loop of `tinox_array_reverse` copies the last elements first. -/
theorem copyBack_eq (len : Nat) (isLen : a.len = len) (inside : len ≤ a.data.length) (n i : Nat)
    (all : i + n = len) (nd : List Int64) (room : i + n ≤ nd.length) :
    ∃ result, copyBack a n i nd = .ok result ∧ result.length = nd.length ∧
      ∀ j, result[j]? = if i ≤ j ∧ j < i + n then a.data[len - 1 - j]? else nd[j]? := by
  induction n generalizing i nd with
  | zero => exact ⟨nd, rfl, rfl, fun j => by rw [if_neg (by omega)]⟩
  | succ n ih =>
      have at_ : a.len - 1 - i = ((len - 1 - i : Nat) : Int) := by omega
      have next : (i : Int) + 1 = ((i + 1 : Nat) : Int) := rfl
      rw [copyBack, at_, load_eq (by omega)]
      change ∃ result, (store nd i _ >>= _) = _ ∧ _
      rw [store_eq (by omega)]
      have opposite : len - 1 - i < a.data.length := by omega
      rcases ih (i + 1) (by omega) (nd.set i a.data[len - 1 - i])
        (by rw [List.length_set]; omega) with ⟨result, done, sameLength, copied⟩
      refine ⟨result, done, sameLength.trans List.length_set, fun j => ?_⟩
      rw [copied j]
      by_cases within : i + 1 ≤ j ∧ j < i + 1 + n
      · rw [if_pos within, if_pos (by omega)]
      · rw [if_neg within]
        by_cases here : j = i
        · subst here
          rw [List.getElem?_set_self (by omega), if_pos (by omega), List.getElem?_eq_getElem]
        · rw [List.getElem?_set_ne (Ne.symm here), if_neg (by omega)]

theorem TinoxArray.WellFormed.copy_yields (wellFormed : a.WellFormed) :
    Yields (fun b : TinoxArray => b.WellFormed ∧ b.len = a.len) (· = .memory)
      (tinoxArrayNew available a.len 0) := by
  have nonneg := wellFormed.nonneg
  have le_cap := wellFormed.le_cap
  have size := wellFormed.size
  have small : ¬ (2 ^ 64 - 1) / 8 < max a.len 0 := by omega
  apply (tinoxArrayNew_yields nonneg (by omega) (by omega)).mono
  · exact fun b spec => ⟨spec.1, spec.2.1⟩
  · rintro reason (rfl | ⟨-, large⟩)
    · rfl
    · exact absurd large small

theorem tinoxArrayReverse_yields (wellFormed : a.WellFormed) :
    Yields (fun b => b.WellFormed ∧ b.contents = a.contents.reverse) (· = .memory)
      (tinoxArrayReverse available a) := by
  have nonneg := wellFormed.nonneg
  have le_cap := wellFormed.le_cap
  have allocated := wellFormed.allocated
  have size := wellFormed.size
  rcases Int.eq_ofNat_of_zero_le nonneg with ⟨n, isLen⟩
  rw [tinoxArrayReverse]
  apply wellFormed.copy_yields.bind
  rintro nh ⟨newFormed, newLen⟩
  have newAllocated := newFormed.allocated
  have newRoom := newFormed.le_cap
  rcases copyBack_eq n isLen (by omega) n 0 (Nat.zero_add n) nh.data (by omega) with
    ⟨result, done, sameLength, copied⟩
  rw [isLen, Int.toNat_natCast]
  change Yields _ _ (copyBack a n (0 : Nat) nh.data >>= _)
  rw [done]
  refine ⟨wellFormed_with newFormed newFormed.nonneg newRoom sameLength, ?_⟩
  rw [TinoxArray.contents, TinoxArray.contents]
  change result.take nh.len.toNat = _
  rw [newLen, isLen, Int.toNat_natCast]
  apply List.ext_getElem?
  intro j
  have length : (a.data.take n).length = n := by
    rw [List.length_take]
    omega
  by_cases inside : j < n
  · rw [List.getElem?_take, if_pos inside, copied j, if_pos (by omega),
      List.getElem?_reverse (by omega), length, List.getElem?_take, if_pos (by omega)]
  · rw [List.getElem?_eq_none, List.getElem?_eq_none]
    · rw [List.length_reverse]
      omega
    · rw [List.length_take]
      omega

theorem tinoxArrayGet_yields (wellFormed : a.WellFormed) (idx : Int) :
    Yields (fun value => 0 ≤ idx ∧ a.contents[idx.toNat]? = some value)
      (fun stop => stop = .exit ∧ ¬ (0 ≤ idx ∧ idx < a.len)) (tinoxArrayGet a idx) := by
  have le_cap := wellFormed.le_cap
  have allocated := wellFormed.allocated
  rw [tinoxArrayGet]
  by_cases outside : idx < 0 ∨ idx ≥ a.len
  · rw [if_pos outside]
    exact ⟨rfl, by omega⟩
  · rw [if_neg outside]
    rcases Int.eq_ofNat_of_zero_le (show 0 ≤ idx by omega) with ⟨i, rfl⟩
    have inside : i < a.data.length := by omega
    rw [load_eq inside]
    refine ⟨Int.natCast_nonneg i, ?_⟩
    rw [TinoxArray.contents, Int.toNat_natCast, List.getElem?_take, if_pos (by omega),
      List.getElem?_eq_getElem]

end Single

end Tinox.Runtime.Arrays
