import Mathlib.Logic.Function.Basic
import Tinox.Search.Probing

/-!
# The runtime map

A table with open addressing from strings to 64-bit integers, which doubles when
three quarters of its slots are in use.  As long as no key is set again behind a
deleted slot, the table is a finite map.
-/

namespace Tinox.Runtime

open Probing

/-- The bytes of a C string before its end. -/
abbrev CString := List UInt8

/-- The hash of a string (in `map_hash`), before it is cut to the table's size. -/
def stringHash (key : CString) : Nat :=
  (key.foldl (fun h p => (h ^^^ p.toUInt64) * 1099511628211) (14695981039346656037 : UInt64)).toNat

/-- `TinoxMap`; `NULL` keys are empty slots. -/
structure TinoxMap (κ ν : Type) where
  entries : List (Slot κ ν)
  len : Nat
  deriving DecidableEq

/-- The number of slots. -/
def TinoxMap.cap {κ ν : Type} (m : TinoxMap κ ν) : Nat :=
  m.entries.length

/-- `tinox_map_create`. -/
def tinoxMapCreate {κ ν : Type} : TinoxMap κ ν :=
  ⟨List.replicate 16 .empty, 0⟩

section Operations

variable {κ ν : Type} (hash : κ → Nat)

/-- `map_hash`. -/
def mapHash (key : κ) (cap : Nat) : Nat :=
  hash key &&& (cap - 1)

/-- Store a key in the first empty slot. -/
def place (fuel : Nat) (entries : List (Slot κ ν)) (key : κ) (value : ν) :
    Option (List (Slot κ ν)) :=
  match probe (fun i => (slotAt entries i).isEmpty) (ringNext entries.length) fuel
      (mapHash hash key entries.length) with
  | none => none
  | some idx => some (entries.set idx (.live key value))

/-- Store all live entries. -/
def placeAll (fuel : Nat) :
    List (Slot κ ν) → List (Slot κ ν) → Option (List (Slot κ ν))
  | [], newEntries => some newEntries
  | .empty :: rest, newEntries => placeAll fuel rest newEntries
  | .deleted :: rest, newEntries => placeAll fuel rest newEntries
  | .live key value :: rest, newEntries =>
      match place hash fuel newEntries key value with
      | none => none
      | some newEntries => placeAll fuel rest newEntries

/-- `map_rehash`. -/
def mapRehash (fuel : Nat) (m : TinoxMap κ ν) : Option (TinoxMap κ ν) :=
  match placeAll hash fuel m.entries (List.replicate (m.cap * 2) .empty) with
  | none => none
  | some entries => some ⟨entries, m.len⟩

/-- The load that makes the next insertion double the table. -/
def TinoxMap.Loaded (m : TinoxMap κ ν) : Prop :=
  m.len * 4 ≥ m.cap * 3

instance (m : TinoxMap κ ν) : Decidable m.Loaded :=
  inferInstanceAs (Decidable (_ ≥ _))

variable [DecidableEq κ]

/-- The loop of `tinox_map_set`, which ends at the key, an empty or a deleted slot. -/
def storeKey (fuel : Nat) (m : TinoxMap κ ν) (key : κ) (value : ν) : Option (TinoxMap κ ν) :=
  match probe (fun i => (slotAt m.entries i).endsInsert key) (ringNext m.cap) fuel
      (mapHash hash key m.cap) with
  | none => none
  | some idx =>
      some ⟨m.entries.set idx (.live key value),
        if (slotAt m.entries idx).isLive then m.len else m.len + 1⟩

/-- `tinox_map_set`; the fuel bounds each of its loops. -/
def tinoxMapSet (fuel : Nat) (m : TinoxMap κ ν) (key : κ) (value : ν) : Option (TinoxMap κ ν) :=
  match if m.Loaded then mapRehash hash fuel m else some m with
  | none => none
  | some m => storeKey hash fuel m key value

/-- The loop of `tinox_map_get`, `tinox_map_contains` and `tinox_map_remove`, which ends at
the key or an empty slot. -/
def findKey (fuel : Nat) (m : TinoxMap κ ν) (key : κ) : Option Nat :=
  probe (fun i => (slotAt m.entries i).endsSearch key) (ringNext m.cap) fuel
    (mapHash hash key m.cap)

/-- `tinox_map_get`. -/
def tinoxMapGet (fuel : Nat) (m : TinoxMap κ Int64) (key : κ) : Option Int64 :=
  (findKey hash fuel m key).map fun idx =>
    match slotAt m.entries idx with
    | .live _ value => value
    | .empty | .deleted => 0

/-- `tinox_map_contains`. -/
def tinoxMapContains (fuel : Nat) (m : TinoxMap κ ν) (key : κ) : Option Int64 :=
  (findKey hash fuel m key).map fun idx =>
    match slotAt m.entries idx with
    | .live .. => 1
    | .empty | .deleted => 0

/-- `tinox_map_remove`. -/
def tinoxMapRemove (fuel : Nat) (m : TinoxMap κ ν) (key : κ) : Option (TinoxMap κ ν) :=
  (findKey hash fuel m key).map fun idx =>
    match slotAt m.entries idx with
    | .live .. => ⟨m.entries.set idx .deleted, m.len - 1⟩
    | .empty | .deleted => m

/-- `tinox_map_len`. -/
def tinoxMapLen (m : TinoxMap κ ν) : Nat :=
  m.len

/-- A new zeroed array of this length with values stored from its start on. -/
def stored {α : Type} (len : Nat) (zero : α) (values : List α) : List α :=
  (values ++ List.replicate (len - values.length) zero).take len

/-- `tinox_map_keys`; `none` is a null pointer. -/
def tinoxMapKeys (m : TinoxMap κ ν) : List (Option κ) :=
  stored m.len none ((entries m.entries).map fun entry => some entry.1)

/-- `tinox_map_values`. -/
def tinoxMapValues (m : TinoxMap κ Int64) : List Int64 :=
  stored m.len 0 ((entries m.entries).map Prod.snd)

end Operations

section Runs

variable {κ ν : Type} [DecidableEq κ] (hash : κ → Nat)

/-- The maps that calls make of a new one, where each key that is set meets a condition,
with the finite maps that they stand for. -/
inductive Run (allowed : TinoxMap κ Int64 → κ → Prop) : TinoxMap κ Int64 → (κ → Option Int64) → Prop where
  | create : Run allowed tinoxMapCreate fun _ => none
  | set {m f fuel key value m'} : Run allowed m f → allowed m key →
      tinoxMapSet hash fuel m key value = some m' →
      Run allowed m' (Function.update f key (some value))
  | remove {m f fuel key m'} : Run allowed m f → tinoxMapRemove hash fuel m key = some m' →
      Run allowed m' (Function.update f key none)

/-- All calls that return answer for the finite map. -/
structure Answers (m : TinoxMap κ Int64) (f : κ → Option Int64) : Prop where
  get : ∀ fuel key value, tinoxMapGet hash fuel m key = some value → value = (f key).getD 0
  contains : ∀ fuel key answer, tinoxMapContains hash fuel m key = some answer →
    answer = if (f key).isSome then 1 else 0
  listed : ∃ keys : List κ, keys.Nodup ∧ (∀ key, key ∈ keys ↔ (f key).isSome = true) ∧
    tinoxMapLen m = keys.length ∧ tinoxMapKeys m = keys.map some ∧
    tinoxMapValues m = keys.map fun key => (f key).getD 0

/-- The key is not set behind a deleted slot. -/
def InOrder (m : TinoxMap κ ν) (key : κ) : Prop :=
  m.Loaded ∨ NoDeletedBefore m.entries (mapHash hash key m.cap) key

/-- A well formed table that holds a finite map. -/
structure Represents (m : TinoxMap κ ν) (f : κ → Option ν) : Prop where
  isPower : ∃ k, m.cap = 2 ^ k
  wellFormed : WellFormed (fun key => mapHash hash key m.cap) m.entries
  len : m.len = m.entries.countP Slot.isLive
  holds : ∀ key value, Holds m.entries key value ↔ f key = some value

end Runs

section Single

variable {κ ν : Type} {hash : κ → Nat}

theorem mapHash_lt {cap : Nat} (isPower : ∃ k, cap = 2 ^ k) (key : κ) :
    mapHash hash key cap < cap := by
  rw [mapHash, and_mask isPower]
  exact Nat.mod_lt _ (size_pos isPower)

theorem place_cases {fuel : Nat} {slots result : List (Slot κ ν)} {key : κ} {value : ν}
    (placed : place hash fuel slots key value = some result) :
    ∃ idx, probe (fun i => (slotAt slots i).isEmpty) (ringNext slots.length) fuel
        (mapHash hash key slots.length) = some idx ∧ result = slots.set idx (.live key value) := by
  rw [place] at placed
  split at placed
  · cases placed
  · next idx found =>
      injection placed with same
      exact ⟨idx, found, same.symm⟩

theorem placeAll_live {fuel : Nat} {rest slots result : List (Slot κ ν)} {key : κ} {value : ν}
    (placed : placeAll hash fuel (.live key value :: rest) slots = some result) :
    ∃ middle, place hash fuel slots key value = some middle ∧
      placeAll hash fuel rest middle = some result := by
  rw [placeAll] at placed
  split at placed
  · cases placed
  · next middle first => exact ⟨middle, first, placed⟩

theorem mapRehash_cases {fuel : Nat} {m m' : TinoxMap κ ν}
    (rehashed : mapRehash hash fuel m = some m') :
    ∃ result, placeAll hash fuel m.entries (List.replicate (m.cap * 2) .empty) = some result ∧
      m' = ⟨result, m.len⟩ := by
  rw [mapRehash] at rehashed
  split at rehashed
  · cases rehashed
  · next result placed =>
      injection rehashed with same
      exact ⟨result, placed, same.symm⟩

theorem isPower_doubled {m : TinoxMap κ ν} (isPower : ∃ k, m.cap = 2 ^ k) :
    ∃ k, (List.replicate (m.cap * 2) (Slot.empty : Slot κ ν)).length = 2 ^ k := by
  rcases isPower with ⟨k, isPower⟩
  exact ⟨k + 1, by rw [List.length_replicate, isPower, Nat.pow_succ]⟩

theorem storeKey_cases [DecidableEq κ] {fuel : Nat} {m m' : TinoxMap κ ν} {key : κ} {value : ν}
    (done : storeKey hash fuel m key value = some m') :
    ∃ idx, probe (fun i => (slotAt m.entries i).endsInsert key) (ringNext m.cap) fuel
        (mapHash hash key m.cap) = some idx ∧
      m' = ⟨m.entries.set idx (.live key value),
        if (slotAt m.entries idx).isLive then m.len else m.len + 1⟩ := by
  rw [storeKey] at done
  split at done
  · cases done
  · next idx found =>
      injection done with same
      exact ⟨idx, found, same.symm⟩

theorem tinoxMapSet_cases [DecidableEq κ] {fuel : Nat} {m m' : TinoxMap κ ν} {key : κ} {value : ν}
    (done : tinoxMapSet hash fuel m key value = some m') :
    (∃ middle, m.Loaded ∧ mapRehash hash fuel m = some middle ∧
      storeKey hash fuel middle key value = some m') ∨
      (¬ m.Loaded ∧ storeKey hash fuel m key value = some m') := by
  rw [tinoxMapSet] at done
  split at done
  · cases done
  · next middle isMiddle =>
      by_cases loaded : m.Loaded
      · rw [if_pos loaded] at isMiddle
        exact Or.inl ⟨middle, loaded, isMiddle, done⟩
      · rw [if_neg loaded] at isMiddle
        cases isMiddle
        exact Or.inr ⟨loaded, done⟩

theorem len_put {m : TinoxMap κ ν} {idx : Nat} (inside : idx < m.entries.length)
    (isLen : m.len = m.entries.countP Slot.isLive) (key : κ) (value : ν) :
    (if (slotAt m.entries idx).isLive then m.len else m.len + 1) =
      (m.entries.set idx (.live key value)).countP Slot.isLive := by
  have lives : _ = m.entries.countP Slot.isLive + 1 :=
    countP_set inside Slot.isLive (.live key value)
  rw [isLen]
  cases isLive : (slotAt m.entries idx).isLive with
  | false =>
      rw [isLive] at lives
      exact lives.symm
  | true =>
      rw [isLive] at lives
      exact (Nat.succ.inj lives).symm

theorem place_spec {fuel : Nat} {slots result : List (Slot κ ν)} {key : κ} {value : ν}
    (isPower : ∃ k, slots.length = 2 ^ k)
    (wellFormed : WellFormed (fun key => mapHash hash key slots.length) slots)
    (absent : ∀ old, ¬ Holds slots key old) (placed : place hash fuel slots key value = some result) :
    result.length = slots.length ∧
    WellFormed (fun key => mapHash hash key slots.length) result ∧
    result.countP Slot.isLive = slots.countP Slot.isLive + 1 ∧
    ∀ other v, Holds result other v ↔ (other = key ∧ v = value) ∨ (other ≠ key ∧ Holds slots other v) := by
  rcases place_cases placed with ⟨idx, found, rfl⟩
  rcases reaches_of_probe isPower Slot.isEmpty rfl (mapHash_lt isPower key) found with
    ⟨reaches, isEmpty⟩
  have empty := Slot.isEmpty_iff.mp isEmpty
  have inside := reaches.inside
  have room : (∃ old, slotAt slots idx = .live key old) ∨
      ((slotAt slots idx).isLive = false ∧ ∀ old, ¬ Holds slots key old) :=
    Or.inr ⟨by rw [empty]; rfl, absent⟩
  refine ⟨List.length_set, wellFormed.put inside reaches room value, ?_,
    wellFormed.holds_put inside room value⟩
  have counted := countP_set inside Slot.isLive (.live key value)
  rw [empty] at counted
  exact counted

theorem placeAll_spec {fuel : Nat} (old : List (Slot κ ν)) {slots result : List (Slot κ ν)}
    (isPower : ∃ k, slots.length = 2 ^ k)
    (wellFormed : WellFormed (fun key => mapHash hash key slots.length) slots)
    (nodup : ((entries old).map Prod.fst).Nodup)
    (absent : ∀ entry ∈ entries old, ∀ v, ¬ Holds slots entry.1 v)
    (placed : placeAll hash fuel old slots = some result) :
    result.length = slots.length ∧
    WellFormed (fun key => mapHash hash key slots.length) result ∧
    result.countP Slot.isLive = slots.countP Slot.isLive + (entries old).length ∧
    ∀ key v, Holds result key v ↔ (key, v) ∈ entries old ∨ Holds slots key v := by
  induction old generalizing slots with
  | nil =>
      injection placed with same
      subst same
      exact ⟨rfl, wellFormed, rfl, fun key v => ⟨Or.inr, fun either =>
        either.elim (fun member => by cases member) id⟩⟩
  | cons slot rest ih =>
      cases slot with
      | empty | deleted => exact ih isPower wellFormed nodup absent placed
      | live key value =>
          rcases placeAll_live placed with ⟨middle, first, placed⟩
          have isEntry : entries (.live key value :: rest) = (key, value) :: entries rest := rfl
          rw [isEntry] at nodup absent ⊢
          have fresh := absent (key, value) List.mem_cons_self
          rcases place_spec isPower wellFormed fresh first with
            ⟨sameLength, wellFormed', counted, holds⟩
          rw [List.map_cons, List.nodup_cons] at nodup
          have absent' : ∀ entry ∈ entries rest, ∀ v, ¬ Holds middle entry.1 v := by
            intro entry member v held
            rcases (holds _ _).mp held with ⟨sameKey, -⟩ | ⟨-, held⟩
            · exact nodup.1 (sameKey ▸ List.mem_map_of_mem member)
            · exact absent entry (List.mem_cons_of_mem _ member) v held
          rcases ih (sameLength ▸ isPower) (sameLength ▸ wellFormed') nodup.2 absent' placed with
            ⟨lastLength, lastFormed, lastCounted, lastHolds⟩
          refine ⟨lastLength.trans sameLength, sameLength ▸ lastFormed, ?_, ?_⟩
          · rw [lastCounted, counted, List.length_cons]
            omega
          · intro other v
            rw [lastHolds, holds, List.mem_cons, Prod.mk.injEq]
            constructor
            · rintro (member | same | ⟨-, held⟩)
              · exact Or.inl (Or.inr member)
              · exact Or.inl (Or.inl same)
              · exact Or.inr held
            · rintro ((same | member) | held)
              · exact Or.inr (Or.inl same)
              · exact Or.inl member
              · refine Or.inr (Or.inr ⟨?_, held⟩)
                rintro rfl
                exact fresh v held

theorem placeAll_notDeleted {fuel : Nat} {old slots result : List (Slot κ ν)}
    (notDeleted : ∀ i, slotAt slots i ≠ .deleted)
    (placed : placeAll hash fuel old slots = some result) : ∀ i, slotAt result i ≠ .deleted := by
  induction old generalizing slots with
  | nil =>
      injection placed with same
      exact same ▸ notDeleted
  | cons slot rest ih =>
      cases slot with
      | empty | deleted => exact ih notDeleted placed
      | live key value =>
          rcases placeAll_live placed with ⟨middle, first, placed⟩
          apply ih _ placed
          rcases place_cases first with ⟨idx, -, rfl⟩
          intro i
          rcases slotAt_set_or slots idx (.live key value) i with same | same
          · rw [same]
            nofun
          · rw [same]
            exact notDeleted i

end Single

namespace Represents

variable {κ ν : Type} [DecidableEq κ] {hash : κ → Nat} {m m' : TinoxMap κ ν} {f : κ → Option ν}

omit [DecidableEq κ] in
theorem create : Represents hash (tinoxMapCreate : TinoxMap κ ν) fun _ => none where
  isPower := ⟨4, rfl⟩
  wellFormed := WellFormed.replicate_empty fun key => mapHash_lt ⟨4, rfl⟩ key
  len := rfl
  holds key value := by
    constructor
    · rintro ⟨index, isLive⟩
      rw [tinoxMapCreate, slotAt_replicate] at isLive
      cases isLive
    · intro impossible
      cases impossible

omit [DecidableEq κ] in
theorem rehash (represents : Represents hash m f) {fuel : Nat}
    (rehashed : mapRehash hash fuel m = some m') :
    Represents hash m' f ∧ ∀ i, slotAt m'.entries i ≠ .deleted := by
  rcases mapRehash_cases rehashed with ⟨result, placed, rfl⟩
  have isPower := isPower_doubled represents.isPower
  have noKey : ∀ key v, ¬ Holds (List.replicate (m.cap * 2) (Slot.empty : Slot κ ν)) key v := by
    rintro key v ⟨index, isLive⟩
    rw [slotAt_replicate] at isLive
    cases isLive
  rcases placeAll_spec m.entries isPower
    (WellFormed.replicate_empty fun key =>
      (mapHash_lt isPower key).trans_eq List.length_replicate)
    represents.wellFormed.nodup_keys (fun entry _ v => noKey entry.1 v) placed with
    ⟨sameLength, wellFormed, counted, holds⟩
  have sameCap : (⟨result, m.len⟩ : TinoxMap κ ν).cap = _ := sameLength
  refine ⟨⟨sameCap ▸ isPower, sameCap ▸ wellFormed, ?_, ?_⟩, ?_⟩
  · rw [counted, length_entries, represents.len, List.countP_replicate]
    simp [Slot.isLive]
  · intro key value
    rw [holds, mem_entries, represents.holds]
    exact or_iff_left (noKey key value)
  · apply placeAll_notDeleted _ placed
    intro i
    rw [slotAt_replicate]
    rintro ⟨⟩

omit [DecidableEq κ] in
theorem with_entries (isPower : ∃ k, m.cap = 2 ^ k) {slots : List (Slot κ ν)} {len : Nat}
    (sameLength : slots.length = m.cap)
    (wellFormed : WellFormed (fun key => mapHash hash key m.cap) slots)
    (counted : len = slots.countP Slot.isLive)
    (holds : ∀ key value, Holds slots key value ↔ f key = some value) :
    Represents hash ⟨slots, len⟩ f := by
  have sameCap : (⟨slots, len⟩ : TinoxMap κ ν).cap = m.cap := sameLength
  refine ⟨?_, ?_, counted, holds⟩
  · rw [sameCap]
    exact isPower
  · rw [sameCap]
    exact wellFormed

theorem storeKey (represents : Represents hash m f) {fuel : Nat} {key : κ} {value : ν}
    (inOrder : NoDeletedBefore m.entries (mapHash hash key m.cap) key)
    (done : storeKey hash fuel m key value = some m') :
    Represents hash m' (Function.update f key (some value)) := by
  rcases storeKey_cases done with ⟨idx, found, rfl⟩
  have room := represents.wellFormed.insert_spec represents.isPower inOrder found
  have reaches := (reaches_of_probe represents.isPower (Slot.endsInsert key) rfl
    (mapHash_lt represents.isPower key) found).1
  have inside := reaches.inside
  have room' : (∃ old, slotAt m.entries idx = .live key old) ∨
      ((slotAt m.entries idx).isLive = false ∧ ∀ old, ¬ Holds m.entries key old) := room
  apply with_entries represents.isPower List.length_set
    (represents.wellFormed.put inside reaches room' value) (len_put inside represents.len key value)
  intro other v
  rw [represents.wellFormed.holds_put inside room' value, represents.holds]
  by_cases isKey : other = key
  · subst isKey
    rw [Function.update_self, Option.some.injEq]
    constructor
    · rintro (⟨-, rfl⟩ | ⟨apart, -⟩)
      · rfl
      · exact absurd rfl apart
    · intro same
      exact Or.inl ⟨rfl, same.symm⟩
  · rw [Function.update_of_ne isKey]
    constructor
    · rintro (⟨same, -⟩ | ⟨-, held⟩)
      · exact absurd same isKey
      · exact held
    · exact fun held => Or.inr ⟨isKey, held⟩

theorem set (represents : Represents hash m f) {fuel : Nat} {key : κ} {value : ν}
    (inOrder : InOrder hash m key) (done : tinoxMapSet hash fuel m key value = some m') :
    Represents hash m' (Function.update f key (some value)) := by
  rcases tinoxMapSet_cases done with ⟨middle, -, rehashed, done⟩ | ⟨notLoaded, done⟩
  · rcases represents.rehash rehashed with ⟨representsMiddle, notDeleted⟩
    exact representsMiddle.storeKey (fun _ _ _ _ _ _ => notDeleted _) done
  · exact represents.storeKey (inOrder.resolve_left notLoaded) done

theorem findKey (represents : Represents hash m f) {fuel idx : Nat} {key : κ}
    (found : findKey hash fuel m key = some idx) :
    (∃ value, slotAt m.entries idx = .live key value ∧ f key = some value) ∨
      (slotAt m.entries idx = .empty ∧ f key = none) := by
  rcases represents.wellFormed.search_spec represents.isPower found with
    ⟨value, isKey⟩ | ⟨empty, absent⟩
  · exact Or.inl ⟨value, isKey, (represents.holds key value).mp ⟨idx, isKey⟩⟩
  · refine Or.inr ⟨empty, Option.eq_none_iff_forall_not_mem.mpr fun value isValue => ?_⟩
    exact absent value ((represents.holds key value).mpr isValue)

theorem remove (represents : Represents hash m f) {fuel : Nat} {key : κ}
    (done : tinoxMapRemove hash fuel m key = some m') :
    Represents hash m' (Function.update f key none) := by
  rw [tinoxMapRemove, Option.map_eq_some_iff] at done
  rcases done with ⟨idx, found, rfl⟩
  rcases represents.findKey found with ⟨value, isKey, isValue⟩ | ⟨empty, absent⟩
  · rw [isKey]
    have inside : idx < m.entries.length := inside_of_ne_empty (by rw [isKey]; rintro ⟨⟩)
    apply with_entries represents.isPower List.length_set (represents.wellFormed.delete inside)
    · have counted := countP_set inside Slot.isLive .deleted
      rw [isKey] at counted
      have counted' : (m.entries.set idx .deleted).countP Slot.isLive + 1 =
          m.entries.countP Slot.isLive := counted
      rw [represents.len, ← counted', Nat.add_sub_cancel]
    · intro other v
      rw [represents.wellFormed.holds_delete isKey, represents.holds]
      by_cases same : other = key
      · subst same
        rw [Function.update_self]
        exact ⟨fun both => absurd rfl both.1, fun impossible => by cases impossible⟩
      · rw [Function.update_of_ne same]
        exact and_iff_right same
  · rw [empty, show Function.update f key none = f from by rw [← absent, Function.update_eq_self]]
    exact represents

omit [DecidableEq κ] in
theorem stored_eq {α : Type} {len : Nat} {zero : α} {values : List α} (same : len = values.length) :
    stored len zero values = values := by
  rw [stored, same, Nat.sub_self, List.replicate_zero, List.append_nil, List.take_length]

theorem answers {m : TinoxMap κ Int64} {f : κ → Option Int64} (represents : Represents hash m f) :
    Answers hash m f where
  get fuel key value done := by
    rw [tinoxMapGet, Option.map_eq_some_iff] at done
    rcases done with ⟨idx, found, rfl⟩
    rcases represents.findKey found with ⟨value, isKey, isValue⟩ | ⟨empty, absent⟩
    · rw [isKey, isValue]
      rfl
    · rw [empty, absent]
      rfl
  contains fuel key answer done := by
    rw [tinoxMapContains, Option.map_eq_some_iff] at done
    rcases done with ⟨idx, found, rfl⟩
    rcases represents.findKey found with ⟨value, isKey, isValue⟩ | ⟨empty, absent⟩
    · rw [isKey, isValue]
      rfl
    · rw [empty, absent]
      rfl
  listed := by
    have len : m.len = (entries m.entries).length := represents.len.trans (length_entries _).symm
    refine ⟨(entries m.entries).map Prod.fst, represents.wellFormed.nodup_keys, ?_, ?_, ?_, ?_⟩
    · intro key
      rw [List.mem_map, Option.isSome_iff_exists]
      constructor
      · rintro ⟨⟨key, value⟩, member, rfl⟩
        exact ⟨value, (represents.holds key value).mp (mem_entries.mp member)⟩
      · rintro ⟨value, isValue⟩
        exact ⟨(key, value), mem_entries.mpr ((represents.holds key value).mpr isValue), rfl⟩
    · rw [List.length_map]
      exact len
    · rw [tinoxMapKeys, stored_eq (by rw [List.length_map, len]), List.map_map]
      rfl
    · rw [tinoxMapValues, stored_eq (by rw [List.length_map, len]), List.map_map]
      apply List.map_congr_left
      rintro ⟨key, value⟩ member
      have isValue := (represents.holds key value).mp (mem_entries.mp member)
      simp only [Function.comp_apply, isValue, Option.getD_some]

end Represents

theorem Run.represents {κ : Type} [DecidableEq κ] {hash : κ → Nat} {m : TinoxMap κ Int64}
    {f : κ → Option Int64} (run : Run hash (InOrder hash) m f) : Represents hash m f := by
  induction run with
  | create => exact Represents.create
  | set _ inOrder done ih => exact ih.set inOrder done
  | remove _ done ih => exact ih.remove done

/-- The map is a finite map in every run that sets no key behind a deleted slot. -/
theorem run_answers {κ : Type} [DecidableEq κ] (hash : κ → Nat) {m : TinoxMap κ Int64}
    {f : κ → Option Int64} (run : Run hash (InOrder hash) m f) : Answers hash m f :=
  run.represents.answers

/-- A key that is set and removed is no longer in the map. -/
theorem run_answers_removed : ∃ m m', tinoxMapSet stringHash 16 tinoxMapCreate [97] 7 = some m ∧
    tinoxMapRemove stringHash 16 m [97] = some m' ∧
    Answers stringHash m' (Function.update (Function.update (fun _ => none) [97] (some 7)) [97] none) := by
  have ran : ((tinoxMapSet stringHash 16 tinoxMapCreate [97] (7 : Int64)).bind fun m =>
      tinoxMapRemove stringHash 16 m [97]).isSome = true := by decide
  rcases Option.isSome_iff_exists.mp ran with ⟨m', both⟩
  rcases Option.bind_eq_some_iff.mp both with ⟨m, isSet, isRemoved⟩
  have inOrder : InOrder stringHash (tinoxMapCreate : TinoxMap CString Int64) [97] := by
    refine Or.inr fun n _ value isLive => ?_
    rw [tinoxMapCreate, slotAt_replicate] at isLive
    cases isLive
  exact ⟨m, m', isSet, isRemoved,
    run_answers stringHash ((Run.create.set inOrder isSet).remove isRemoved)⟩

/-- `q` comes behind the deleted `a` and is stored a second time, so that its old value
shows when it is removed. -/
theorem run_not_answers :
    ¬ ∀ m f, Run stringHash (fun _ _ => True) m f → Answers stringHash m f := by
  intro always
  have ran : ((tinoxMapSet stringHash 16 tinoxMapCreate [97] (1 : Int64)).bind fun m =>
      (tinoxMapSet stringHash 16 m [113] 2).bind fun m =>
      (tinoxMapRemove stringHash 16 m [97]).bind fun m =>
      (tinoxMapSet stringHash 16 m [113] 3).bind fun m =>
      (tinoxMapRemove stringHash 16 m [113]).bind fun m =>
      tinoxMapGet stringHash 16 m [113]) = some 2 := by decide
  simp only [Option.bind_eq_some_iff] at ran
  rcases ran with ⟨m₁, setA, m₂, setQ, m₃, removeA, m₄, setAgain, m₅, removeQ, got⟩
  have run : Run stringHash (fun _ _ => True) m₅ _ :=
    ((((Run.create.set trivial setA).set trivial setQ).remove removeA).set trivial
      setAgain).remove removeQ
  have stale := (always _ _ run).get _ _ _ got
  rw [Function.update_self] at stale
  exact absurd stale (by decide)

end Tinox.Runtime
