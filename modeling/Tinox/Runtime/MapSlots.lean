import Tinox.Runtime.Map

/-!
# Empty slots of the runtime map

The loops of the map end at an empty slot.  Removed keys go on using their slots,
and only a table that is full of present keys is doubled.
-/

namespace Tinox.Runtime

open Probing

variable {κ ν : Type} {hash : κ → Nat} {m m' : TinoxMap κ ν}

/-- The number of empty slots. -/
def TinoxMap.free (m : TinoxMap κ ν) : Nat :=
  m.entries.countP Slot.isEmpty

section Condition

variable [DecidableEq κ] (hash : κ → Nat)

/-- From its home on, a key meets an empty slot before a deleted one or itself. -/
def TakesEmpty (m : TinoxMap κ ν) (key : κ) : Prop :=
  ∃ n < m.cap, slotAt m.entries ((mapHash hash key m.cap + n) % m.cap) = .empty ∧
    ∀ i < n, (slotAt m.entries ((mapHash hash key m.cap + i) % m.cap)).endsInsert key = false

/-- A key that takes an empty slot leaves another one, unless the table is doubled first. -/
def LeavesEmpty (m : TinoxMap κ ν) (key : κ) : Prop :=
  m.Loaded ∨ (TakesEmpty hash m key → 2 ≤ m.free)

/-- All calls for all keys return. -/
structure Returns (m : TinoxMap κ Int64) : Prop where
  set : ∀ key value, ∃ fuel m', tinoxMapSet hash fuel m key value = some m'
  get : ∀ key, ∃ fuel value, tinoxMapGet hash fuel m key = some value
  contains : ∀ key, ∃ fuel answer, tinoxMapContains hash fuel m key = some answer
  remove : ∀ key, ∃ fuel m', tinoxMapRemove hash fuel m key = some m'

end Condition

/-- A table with an empty slot that counts its live ones. -/
structure Sparse (m : TinoxMap κ ν) : Prop where
  isPower : ∃ k, m.cap = 2 ^ k
  len : m.len = m.entries.countP Slot.isLive
  free : 0 < m.free

variable {slots : List (Slot κ ν)} {fuel : Nat} {key : κ} {value : ν}

theorem exists_empty (free : 0 < slots.countP Slot.isEmpty) :
    ∃ index < slots.length, (slotAt slots index).isEmpty = true := by
  rcases List.countP_pos_iff.mp free with ⟨slot, member, isEmpty⟩
  rcases List.getElem_of_mem member with ⟨index, inside, rfl⟩
  exact ⟨index, inside, by rwa [slotAt_eq inside]⟩

theorem place_returns (enough : slots.length ≤ fuel) (isPower : ∃ k, slots.length = 2 ^ k)
    (free : 0 < slots.countP Slot.isEmpty) (key : κ) (value : ν) :
    ∃ result, place hash fuel slots key value = some result := by
  rcases exists_empty free with ⟨index, inside, isEmpty⟩
  have homeInside : mapHash hash key slots.length < slots.length := mapHash_lt isPower key
  rcases @probe_ring_isSome _ (fun i => (slotAt slots i).isEmpty) isPower _ _ _ enough homeInside
    inside isEmpty with ⟨idx, found⟩
  exact ⟨slots.set idx (.live key value), by rw [place, found]⟩

theorem place_counts {result : List (Slot κ ν)} (isPower : ∃ k, slots.length = 2 ^ k)
    (placed : place hash fuel slots key value = some result) : result.length = slots.length ∧
    result.countP Slot.isEmpty + 1 = slots.countP Slot.isEmpty ∧
    result.countP Slot.isLive = slots.countP Slot.isLive + 1 := by
  rcases place_cases placed with ⟨idx, found, rfl⟩
  rcases reaches_of_probe isPower Slot.isEmpty rfl (mapHash_lt isPower key) found with
    ⟨reaches, isEmpty⟩
  have empty := Slot.isEmpty_iff.mp isEmpty
  have counted := countP_set reaches.inside Slot.isEmpty (.live key value)
  have counted' := countP_set reaches.inside Slot.isLive (.live key value)
  rw [empty] at counted counted'
  exact ⟨List.length_set, counted, counted'⟩

theorem placeAll_counts {old result : List (Slot κ ν)} (isPower : ∃ k, slots.length = 2 ^ k)
    (placed : placeAll hash fuel old slots = some result) : result.length = slots.length ∧
    result.countP Slot.isEmpty + old.countP Slot.isLive = slots.countP Slot.isEmpty ∧
    result.countP Slot.isLive = slots.countP Slot.isLive + old.countP Slot.isLive := by
  induction old generalizing slots with
  | nil =>
      injection placed with same
      subst same
      exact ⟨rfl, rfl, rfl⟩
  | cons slot rest ih =>
      cases slot with
      | empty | deleted => exact ih isPower placed
      | live key value =>
          rcases placeAll_live placed with ⟨middle, first, placed⟩
          rcases place_counts isPower first with ⟨sameLength, empties, lives⟩
          rcases ih (sameLength ▸ isPower) placed with ⟨sameLength', empties', lives'⟩
          have isLive : (Slot.live key value :: rest).countP Slot.isLive =
              rest.countP Slot.isLive + 1 := List.countP_cons_of_pos rfl
          rw [isLive]
          exact ⟨sameLength'.trans sameLength, by omega, by omega⟩

theorem placeAll_returns (old : List (Slot κ ν)) (enough : slots.length ≤ fuel)
    (isPower : ∃ k, slots.length = 2 ^ k)
    (free : old.countP Slot.isLive ≤ slots.countP Slot.isEmpty) :
    ∃ result, placeAll hash fuel old slots = some result := by
  induction old generalizing slots with
  | nil => exact ⟨slots, rfl⟩
  | cons slot rest ih =>
      cases slot with
      | empty | deleted => exact ih enough isPower free
      | live key value =>
          have isLive : (Slot.live key value :: rest).countP Slot.isLive =
              rest.countP Slot.isLive + 1 := List.countP_cons_of_pos rfl
          rw [isLive] at free
          rcases place_returns enough isPower (Nat.lt_of_lt_of_le (Nat.succ_pos _) free) key value
            with ⟨middle, first⟩
          rcases place_counts isPower first with ⟨sameLength, empties, -⟩
          rw [placeAll, first]
          exact ih (sameLength ▸ enough) (sameLength ▸ isPower) (by omega)

namespace Sparse

theorem live_lt (sparse : Sparse m) : m.entries.countP Slot.isLive < m.cap := by
  have apart : ∀ slots : List (Slot κ ν),
      slots.countP Slot.isLive + slots.countP Slot.isEmpty ≤ slots.length := by
    intro slots
    induction slots with
    | nil => exact Nat.le_refl 0
    | cons slot rest ih =>
        rw [List.countP_cons, List.countP_cons, List.length_cons]
        cases slot <;> simp only [Slot.isLive, Slot.isEmpty] <;> simp <;> omega
  have both := apart m.entries
  have free := sparse.free
  rw [TinoxMap.free] at free
  exact Nat.lt_of_lt_of_le (Nat.lt_add_of_pos_right free) both

theorem rehash (sparse : Sparse m) (rehashed : mapRehash hash fuel m = some m') :
    Sparse m' ∧ 2 ≤ m'.free := by
  rcases mapRehash_cases rehashed with ⟨result, placed, rfl⟩
  have isPower := isPower_doubled sparse.isPower
  rcases placeAll_counts isPower placed with ⟨sameLength, empties, lives⟩
  rw [List.countP_replicate] at empties lives
  simp only [Slot.isEmpty, Slot.isLive, if_true, Bool.false_eq_true, if_false, Nat.zero_add] at empties lives
  have few := sparse.live_lt
  have free : 2 ≤ (⟨result, m.len⟩ : TinoxMap κ ν).free := by
    have positive := size_pos sparse.isPower
    change 2 ≤ result.countP Slot.isEmpty
    omega
  refine ⟨⟨?_, ?_, Nat.lt_of_lt_of_le Nat.zero_lt_two free⟩, free⟩
  · rw [TinoxMap.cap, sameLength]
    exact isPower
  · rw [sparse.len, lives]

theorem storeKey [DecidableEq κ] (sparse : Sparse m) (leaves : TakesEmpty hash m key → 2 ≤ m.free)
    (done : storeKey hash fuel m key value = some m') : Sparse m' := by
  rcases storeKey_cases done with ⟨idx, found, rfl⟩
  have homeInside : mapHash hash key m.cap < m.cap := mapHash_lt sparse.isPower key
  rcases probe_ring sparse.isPower homeInside found with ⟨n, below, reached, isStop, before⟩
  have inside : idx < m.entries.length := reached ▸ Nat.mod_lt _ (size_pos sparse.isPower)
  have empties : _ = m.free + 0 := countP_set inside Slot.isEmpty (.live key value)
  refine ⟨?_, len_put inside sparse.len key value, ?_⟩
  · rw [TinoxMap.cap, List.length_set]
    exact sparse.isPower
  · have free := sparse.free
    change 0 < (m.entries.set idx (.live key value)).countP Slot.isEmpty
    cases isEmpty : (slotAt m.entries idx).isEmpty with
    | false =>
        rw [isEmpty] at empties
        exact Nat.lt_of_lt_of_eq free empties.symm
    | true =>
        have spare := leaves ⟨n, below, reached ▸ Slot.isEmpty_iff.mp isEmpty, before⟩
        rw [isEmpty, Bool.toNat_true] at empties
        omega

/-- A table in which an insertion leaves an empty slot still has one afterwards. -/
theorem set [DecidableEq κ] (sparse : Sparse m) (leaves : LeavesEmpty hash m key)
    (done : tinoxMapSet hash fuel m key value = some m') : Sparse m' := by
  rcases tinoxMapSet_cases done with ⟨middle, -, rehashed, done⟩ | ⟨notLoaded, done⟩
  · rcases sparse.rehash rehashed with ⟨sparseMiddle, spare⟩
    exact sparseMiddle.storeKey (fun _ => spare) done
  · exact sparse.storeKey (leaves.resolve_left notLoaded) done

theorem remove [DecidableEq κ] (sparse : Sparse m) {fuel : Nat} {key : κ}
    (done : tinoxMapRemove hash fuel m key = some m') : Sparse m' := by
  rw [tinoxMapRemove, Option.map_eq_some_iff] at done
  rcases done with ⟨idx, -, rfl⟩
  cases here : slotAt m.entries idx with
  | empty => exact sparse
  | deleted => exact sparse
  | live other value =>
      have inside : idx < m.entries.length := inside_of_ne_empty (by rw [here]; rintro ⟨⟩)
      have empties : _ = m.free + 0 := countP_set inside Slot.isEmpty .deleted
      have lives : _ = m.entries.countP Slot.isLive + 0 := countP_set inside Slot.isLive .deleted
      rw [here] at empties lives
      refine ⟨?_, ?_, Nat.lt_of_lt_of_eq sparse.free empties.symm⟩
      · rw [TinoxMap.cap, List.length_set]
        exact sparse.isPower
      · change m.len - 1 = (m.entries.set idx .deleted).countP Slot.isLive
        have counted : (m.entries.set idx .deleted).countP Slot.isLive + 1 =
            m.entries.countP Slot.isLive := lives
        rw [sparse.len, ← counted, Nat.add_sub_cancel]

theorem findKey_returns [DecidableEq κ] (sparse : Sparse m) (key : κ) :
    ∃ idx, findKey hash m.cap m key = some idx := by
  rcases exists_empty sparse.free with ⟨index, inside, isEmpty⟩
  have homeInside : mapHash hash key m.cap < m.cap := mapHash_lt sparse.isPower key
  apply probe_ring_isSome sparse.isPower (Nat.le_refl _) homeInside inside
  rw [Slot.isEmpty_iff.mp isEmpty]
  rfl

theorem storeKey_returns [DecidableEq κ] (sparse : Sparse m) (enough : m.cap ≤ fuel) (key : κ)
    (value : ν) : ∃ m', Runtime.storeKey hash fuel m key value = some m' := by
  rcases exists_empty sparse.free with ⟨index, inside, isEmpty⟩
  have homeInside : mapHash hash key m.cap < m.cap := mapHash_lt sparse.isPower key
  have stops : (slotAt m.entries index).endsInsert key = true := by
    rw [Slot.isEmpty_iff.mp isEmpty]
    rfl
  rcases @probe_ring_isSome _ (fun i => (slotAt m.entries i).endsInsert key) sparse.isPower _ _ _
    enough homeInside inside stops with ⟨idx, found⟩
  exact ⟨_, by rw [Runtime.storeKey, found]⟩

theorem rehash_returns (sparse : Sparse m) :
    ∃ m', mapRehash hash (m.cap * 2) m = some m' ∧ m'.cap = m.cap * 2 := by
  have isPower := isPower_doubled sparse.isPower
  have room : m.entries.countP Slot.isLive ≤
      (List.replicate (m.cap * 2) (Slot.empty : Slot κ ν)).countP Slot.isEmpty := by
    rw [List.countP_replicate, if_pos (show Slot.isEmpty Slot.empty = true from rfl)]
    exact Nat.le_trans (Nat.le_of_lt sparse.live_lt) (Nat.le_mul_of_pos_right _ Nat.two_pos)
  rcases placeAll_returns m.entries (Nat.le_of_eq List.length_replicate) isPower room with
    ⟨result, placed⟩
  refine ⟨⟨result, m.len⟩, by rw [mapRehash, placed], ?_⟩
  rw [TinoxMap.cap, (placeAll_counts isPower placed).1, List.length_replicate]

theorem set_returns [DecidableEq κ] (sparse : Sparse m) (key : κ) (value : ν) :
    ∃ m', tinoxMapSet hash (m.cap * 2) m key value = some m' := by
  by_cases loaded : m.Loaded
  · rcases sparse.rehash_returns with ⟨middle, rehashed, doubled⟩
    rcases (sparse.rehash rehashed).1.storeKey_returns (Nat.le_of_eq doubled) key value with
      ⟨m', stored⟩
    exact ⟨m', by rw [tinoxMapSet, if_pos loaded, rehashed]; exact stored⟩
  · rcases sparse.storeKey_returns (Nat.le_mul_of_pos_right _ Nat.two_pos) key value with
      ⟨m', stored⟩
    exact ⟨m', by rw [tinoxMapSet, if_neg loaded]; exact stored⟩

theorem returns [DecidableEq κ] {m : TinoxMap κ Int64} (sparse : Sparse m) : Returns hash m where
  set key value := ⟨m.cap * 2, sparse.set_returns key value⟩
  get key := by
    rcases sparse.findKey_returns key with ⟨idx, found⟩
    exact ⟨_, _, Option.map_eq_some_iff.mpr ⟨idx, found, rfl⟩⟩
  contains key := by
    rcases sparse.findKey_returns key with ⟨idx, found⟩
    exact ⟨_, _, Option.map_eq_some_iff.mpr ⟨idx, found, rfl⟩⟩
  remove key := by
    rcases sparse.findKey_returns key with ⟨idx, found⟩
    exact ⟨_, _, Option.map_eq_some_iff.mpr ⟨idx, found, rfl⟩⟩

end Sparse

section Runs

variable [DecidableEq κ] {m m' : TinoxMap κ Int64} {f : κ → Option Int64}

theorem Run.sparse (run : Run hash (LeavesEmpty hash) m f) : Sparse m := by
  induction run with
  | create => exact ⟨⟨4, rfl⟩, rfl, Nat.succ_pos 15⟩
  | set _ leaves done ih => exact ih.set leaves done
  | remove _ done ih => exact ih.remove done

/-- There is an empty slot and all calls return in every run in which no key takes the last
empty slot. -/
theorem run_returns (hash : κ → Nat) {m : TinoxMap κ Int64} {f : κ → Option Int64}
    (run : Run hash (LeavesEmpty hash) m f) : 0 < m.free ∧ Returns hash m :=
  ⟨run.sparse.free, run.sparse.returns⟩

/-- Set keys and remove each of them at once. -/
def setAndRemove (hash : κ → Nat) (fuel : Nat) : List κ → TinoxMap κ Int64 → Option (TinoxMap κ Int64)
  | [], m => some m
  | key :: keys, m =>
      (tinoxMapSet hash fuel m key 0).bind fun m =>
      (tinoxMapRemove hash fuel m key).bind fun m => setAndRemove hash fuel keys m

theorem Run.setAndRemove {fuel : Nat} {keys : List κ} (run : Run hash (fun _ _ => True) m f)
    (done : setAndRemove hash fuel keys m = some m') : ∃ f', Run hash (fun _ _ => True) m' f' := by
  induction keys generalizing m f with
  | nil =>
      injection done with same
      exact ⟨f, same ▸ run⟩
  | cons key keys ih =>
      rw [Runtime.setAndRemove] at done
      rcases Option.bind_eq_some_iff.mp done with ⟨m₁, isSet, rest⟩
      rcases Option.bind_eq_some_iff.mp rest with ⟨m₂, isRemoved, rest⟩
      exact ih ((run.set trivial isSet).remove isRemoved) rest

end Runs

/-- One key takes one of the sixteen empty slots. -/
theorem run_returns_set : ∃ m, tinoxMapSet stringHash 16 tinoxMapCreate [97] 7 = some m ∧
    0 < m.free ∧ Returns stringHash m := by
  have ran : (tinoxMapSet stringHash 16 tinoxMapCreate [97] (7 : Int64)).isSome = true := by
    decide
  rcases Option.isSome_iff_exists.mp ran with ⟨m, isSet⟩
  have spare : 2 ≤ (tinoxMapCreate : TinoxMap CString Int64).free := by decide
  exact ⟨m, isSet, run_returns stringHash (Run.create.set (Or.inr fun _ => spare) isSet)⟩

/-- Sixteen keys that are set and removed one after the other leave no empty slot. -/
theorem run_not_returns :
    ¬ ∀ m f, Run stringHash (fun _ _ => True) m f → 0 < m.free ∧ Returns stringHash m := by
  intro always
  have ran : ((setAndRemove stringHash 16 ((List.range 16).map fun i => [UInt8.ofNat (97 + i)])
      tinoxMapCreate).map TinoxMap.free) = some 0 := by decide
  rcases Option.map_eq_some_iff.mp ran with ⟨m, done, noneFree⟩
  rcases Run.create.setAndRemove done with ⟨f, run⟩
  have free := (always m f run).1
  rw [noneFree] at free
  exact absurd free (Nat.lt_irrefl 0)

end Tinox.Runtime
