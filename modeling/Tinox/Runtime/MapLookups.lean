import Tinox.Runtime.MapSlots

/-!
# Lookups in the runtime map

Whatever calls have made a table, the search for the key of a live slot ends at a
live slot of that key.
-/

namespace Tinox.Runtime

open Probing

variable {κ ν : Type} {hash : κ → Nat} {m m' : TinoxMap κ ν}

/-- A table that counts its live slots, each of which the search for its key gets to. -/
structure Searchable (hash : κ → Nat) (m : TinoxMap κ ν) : Prop where
  isPower : ∃ k, m.cap = 2 ^ k
  len : m.len = m.entries.countP Slot.isLive
  reaches : ∀ i key v, slotAt m.entries i = .live key v →
    Reaches m.entries (mapHash hash key m.cap) i

section Lookup

variable [DecidableEq κ] (hash : κ → Nat)

/-- The value at the slot where the search for a key ends. -/
def lookup (m : TinoxMap κ ν) (key : κ) : Option ν :=
  (findKey hash m.cap m key).bind fun idx => (slotAt m.entries idx).content?.map Prod.snd

end Lookup

theorem reaches_live {slots : List (Slot κ ν)} {home : κ → Nat} {idx : Nat} {key : κ}
    (all : ∀ i key v, slotAt slots i = .live key v → Reaches slots (home key) i)
    (here : Reaches slots (home key) idx) (value : ν) (i : Nat) (other : κ) (v : ν)
    (isLive : slotAt (slots.set idx (.live key value)) i = .live other v) :
    Reaches (slots.set idx (.live key value)) (home other) i := by
  apply WellFormed.reaches_set _ idx (by rintro ⟨⟩)
  by_cases same : idx = i
  · subst same
    rw [slotAt_set_self here.inside] at isLive
    injection isLive with sameKey
    exact sameKey ▸ here
  · rw [slotAt_set_ne same] at isLive
    exact all i other v isLive

/-- Storing live entries one after the other keeps all of them reached. -/
theorem placeAll_reaches {fuel : Nat} {old slots result : List (Slot κ ν)}
    (isPower : ∃ k, slots.length = 2 ^ k)
    (all : ∀ i key v, slotAt slots i = .live key v →
      Reaches slots (mapHash hash key slots.length) i)
    (placed : placeAll hash fuel old slots = some result) :
    ∀ i key v, slotAt result i = .live key v →
      Reaches result (mapHash hash key result.length) i := by
  induction old generalizing slots with
  | nil =>
      injection placed with same
      exact same ▸ all
  | cons slot rest ih =>
      cases slot with
      | empty | deleted => exact ih isPower all placed
      | live key value =>
          rcases placeAll_live placed with ⟨middle, first, placed⟩
          rcases place_cases first with ⟨idx, found, rfl⟩
          rcases reaches_of_probe isPower Slot.isEmpty rfl (mapHash_lt isPower key) found with
            ⟨here, -⟩
          apply ih _ _ placed
          · rwa [List.length_set]
          · rw [List.length_set]
            exact reaches_live all here value

namespace Searchable

theorem replicate_empty {size : Nat} (isPower : ∃ k, size = 2 ^ k) :
    Searchable hash (⟨List.replicate size .empty, 0⟩ : TinoxMap κ ν) where
  isPower := by
    rw [TinoxMap.cap, List.length_replicate]
    exact isPower
  len := by
    rw [List.countP_replicate]
    rfl
  reaches i key v isLive := by
    rw [slotAt_replicate] at isLive
    cases isLive

theorem rehash (searchable : Searchable hash m) {fuel : Nat}
    (rehashed : mapRehash hash fuel m = some m') : Searchable hash m' := by
  rcases mapRehash_cases rehashed with ⟨result, placed, rfl⟩
  have isPower := isPower_doubled searchable.isPower
  rcases placeAll_counts isPower placed with ⟨sameLength, -, lives⟩
  constructor
  · rw [TinoxMap.cap, sameLength]
    exact isPower
  · rw [lives, List.countP_replicate, searchable.len]
    exact (Nat.zero_add _).symm
  · apply placeAll_reaches isPower _ placed
    intro i key v isLive
    rw [slotAt_replicate] at isLive
    cases isLive

theorem storeKey [DecidableEq κ] (searchable : Searchable hash m) {fuel : Nat} {key : κ} {value : ν}
    (done : storeKey hash fuel m key value = some m') : Searchable hash m' := by
  rcases storeKey_cases done with ⟨idx, found, rfl⟩
  rcases reaches_of_probe searchable.isPower (Slot.endsInsert key) rfl
    (mapHash_lt searchable.isPower key) found with ⟨here, -⟩
  constructor
  · rw [TinoxMap.cap, List.length_set]
    exact searchable.isPower
  · exact len_put here.inside searchable.len key value
  · rw [TinoxMap.cap, List.length_set]
    exact reaches_live searchable.reaches here value

theorem set [DecidableEq κ] (searchable : Searchable hash m) {fuel : Nat} {key : κ} {value : ν}
    (done : tinoxMapSet hash fuel m key value = some m') : Searchable hash m' := by
  rcases tinoxMapSet_cases done with ⟨middle, -, rehashed, done⟩ | ⟨-, done⟩
  · exact (searchable.rehash rehashed).storeKey done
  · exact searchable.storeKey done

theorem remove [DecidableEq κ] (searchable : Searchable hash m) {fuel : Nat} {key : κ}
    (done : tinoxMapRemove hash fuel m key = some m') : Searchable hash m' := by
  rw [tinoxMapRemove, Option.map_eq_some_iff] at done
  rcases done with ⟨idx, -, rfl⟩
  cases here : slotAt m.entries idx with
  | empty | deleted => exact searchable
  | live other value =>
      have inside : idx < m.entries.length := inside_of_ne_empty (by rw [here]; rintro ⟨⟩)
      constructor
      · rw [TinoxMap.cap, List.length_set]
        exact searchable.isPower
      · have lives : _ = m.entries.countP Slot.isLive + 0 := countP_set inside Slot.isLive .deleted
        rw [here] at lives
        have counted : (m.entries.set idx .deleted).countP Slot.isLive + 1 =
            m.entries.countP Slot.isLive := lives
        rw [searchable.len, ← counted, Nat.add_sub_cancel]
      · intro i key v isLive
        rw [TinoxMap.cap, List.length_set]
        apply WellFormed.reaches_set _ idx (by rintro ⟨⟩)
        apply searchable.reaches i key v
        by_cases same : idx = i
        · subst same
          rw [slotAt_set_self inside] at isLive
          cases isLive
        · rwa [slotAt_set_ne same] at isLive

variable [DecidableEq κ]

omit [DecidableEq κ] in
theorem keys (searchable : Searchable hash m) :
    tinoxMapKeys m = (entries m.entries).map fun entry => some entry.1 := by
  have sameLength : m.len = ((entries m.entries).map fun entry => some entry.1).length := by
    rw [List.length_map, length_entries]
    exact searchable.len
  rw [tinoxMapKeys, Represents.stored_eq sameLength]

/-- The search for a key of a live slot ends at a live slot of the key, after one round of the
table at the latest. -/
theorem findKey_of_holds (searchable : Searchable hash m) {key : κ} {value : ν}
    (holds : Holds m.entries key value) :
    ∃ idx found, findKey hash m.cap m key = some idx ∧ slotAt m.entries idx = .live key found := by
  rcases holds with ⟨i, isKey⟩
  have homeInside : mapHash hash key m.cap < m.cap := mapHash_lt searchable.isPower key
  have reached := searchable.reaches i key value isKey
  have isStop : (slotAt m.entries i).endsSearch key = true := by
    rw [isKey]
    exact decide_eq_true rfl
  rcases @probe_ring_isSome _ (fun i => (slotAt m.entries i).endsSearch key) searchable.isPower _ _ _
    (Nat.le_refl _) homeInside reached.inside isStop with ⟨idx, found⟩
  rcases probe_ring searchable.isPower homeInside found with ⟨n, -, isIdx, ends, before⟩
  rcases reached with ⟨n', -, isI, noEmpty⟩
  cases here : slotAt m.entries idx with
  | live other v =>
      rw [here] at ends
      have same : other = key := of_decide_eq_true ends
      exact ⟨idx, v, found, by rw [here, same]⟩
  | deleted =>
      rw [here] at ends
      cases ends
  | empty =>
      -- an empty slot is neither before the key nor behind it on the way
      rcases Nat.lt_trichotomy n n' with earlier | same | later
      · exact absurd (isIdx.symm ▸ here) (noEmpty n earlier)
      · subst same
        have isHere : i = idx := isI.symm.trans isIdx
        rw [← isHere, isKey] at here
        cases here
      · have stays : (slotAt m.entries i).endsSearch key = false := isI ▸ before n' later
        rw [isStop] at stays
        cases stays

theorem lookup_isSome_iff (searchable : Searchable hash m) {key : κ} :
    (lookup hash m key).isSome = true ↔ ∃ value, (key, value) ∈ entries m.entries := by
  constructor
  · intro isSome
    rcases Option.isSome_iff_exists.mp isSome with ⟨value, isValue⟩
    rcases Option.bind_eq_some_iff.mp isValue with ⟨idx, found, atIdx⟩
    rcases Option.map_eq_some_iff.mp atIdx with ⟨⟨other, v⟩, isEntry, -⟩
    have isLive := Slot.content?_eq_some_iff.mp isEntry
    rcases probe_eq_some_iff.mp found with ⟨-, -, -, ends, -⟩
    rw [isLive] at ends
    have same : other = key := of_decide_eq_true ends
    exact ⟨v, mem_entries.mpr ⟨idx, by rw [isLive, same]⟩⟩
  · rintro ⟨value, member⟩
    rcases searchable.findKey_of_holds (mem_entries.mp member) with ⟨idx, v, found, isLive⟩
    rw [lookup, found, Option.bind_some, isLive]
    rfl

end Searchable

theorem findKey_mono [DecidableEq κ] {fuel more idx : Nat} {key : κ} (enough : fuel ≤ more)
    (found : findKey hash fuel m key = some idx) : findKey hash more m key = some idx := by
  rcases probe_eq_some_iff.mp found with ⟨n, below, rest⟩
  exact probe_eq_some_iff.mpr ⟨n, Nat.lt_of_lt_of_le below enough, rest⟩

end Tinox.Runtime
