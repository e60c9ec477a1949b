import Mathlib.Data.List.Basic

/-!
# Maps as lists of entries

A map as the list of its entries: a key that is stored again has the value that was stored last.
-/

namespace Entries

variable {κ ν : Type} [BEq κ] [LawfulBEq κ]

/-- Store a value under a key. -/
def put (entries : List (κ × ν)) (key : κ) (value : ν) : List (κ × ν) :=
  entries.filter (fun entry => !entry.1 == key) ++ [(key, value)]

omit [LawfulBEq κ] in
theorem lookup_entry (entry : κ × ν) (key : κ) :
    [entry].lookup key = if key == entry.1 then some entry.2 else none := by
  rw [List.lookup_cons]
  cases key == entry.1 <;> rfl

theorem lookup_filter_ne {entries : List (κ × ν)} {key other : κ} (apart : other ≠ key) :
    (entries.filter fun entry => !entry.1 == key).lookup other = entries.lookup other := by
  induction entries with
  | nil => rfl
  | cons entry entries ih =>
      by_cases isKey : entry.1 = key
      · rw [List.filter_cons_of_neg (by simp [isKey]), ih, List.lookup_cons,
          beq_eq_false_iff_ne.mpr (isKey ▸ apart)]
      · rw [List.filter_cons_of_pos (by simp [isKey]), List.lookup_cons, List.lookup_cons, ih]

theorem lookup_filter_self (entries : List (κ × ν)) (key : κ) :
    (entries.filter fun entry => !entry.1 == key).lookup key = none := by
  rw [List.lookup_eq_none_iff]
  intro entry member
  have apart : entry.1 ≠ key := by simpa using (List.mem_filter.mp member).2
  simpa using Ne.symm apart

theorem lookup_eq_none {entries : List (κ × ν)} {key : κ} :
    entries.lookup key = none ↔ key ∉ entries.map Prod.fst := by
  rw [List.lookup_eq_none_iff]
  constructor
  · intro apart member
    rcases List.mem_map.mp member with ⟨entry, isEntry, rfl⟩
    exact bne_iff_ne.mp (apart entry isEntry) rfl
  · intro notKey entry isEntry
    exact bne_iff_ne.mpr fun isKey => notKey (isKey ▸ List.mem_map_of_mem isEntry)

theorem mem_of_lookup {entries : List (κ × ν)} {key : κ} {value : ν}
    (found : entries.lookup key = some value) : (key, value) ∈ entries := by
  rcases List.lookup_eq_some_iff.mp found with ⟨front, back, rfl, _⟩
  exact List.mem_append_right front List.mem_cons_self

/-- What is found is what was stored last. -/
theorem lookup_put (entries : List (κ × ν)) (key other : κ) (value : ν) :
    (put entries key value).lookup other =
      if other == key then some value else entries.lookup other := by
  rw [put, List.lookup_append, lookup_entry]
  by_cases isKey : other = key
  · rw [isKey, lookup_filter_self, Option.none_or]
    simp
  · rw [lookup_filter_ne isKey, beq_eq_false_iff_ne.mpr isKey]
    simp

/-- Entries that are stored one after the other. -/
def putAll (entries stored : List (κ × ν)) : List (κ × ν) :=
  stored.foldl (fun entries entry => put entries entry.1 entry.2) entries

/-- The last entry of a key. -/
def last (stored : List (κ × ν)) (key : κ) : Option ν :=
  stored.reverse.lookup key

theorem lookup_putAll (entries stored : List (κ × ν)) (key : κ) :
    (putAll entries stored).lookup key = (last stored key).or (entries.lookup key) := by
  induction stored generalizing entries with
  | nil => rfl
  | cons entry stored ih =>
      rw [putAll, List.foldl_cons, ← putAll, ih, lookup_put, last, last, List.reverse_cons,
        List.lookup_append, Option.or_assoc]
      congr 1
      rw [lookup_entry]
      split
      · rfl
      · rfl

/-- A key that is new goes to the end. -/
theorem put_of_notMem {entries : List (κ × ν)} {key : κ} (isNew : key ∉ entries.map Prod.fst)
    (value : ν) : put entries key value = entries ++ [(key, value)] := by
  rw [put, List.filter_eq_self.mpr]
  intro entry member
  have apart : entry.1 ≠ key := fun isKey => isNew (isKey ▸ List.mem_map_of_mem member)
  simpa using apart

/-- Entries of distinct keys are stored in their order. -/
theorem putAll_of_nodup {stored entries : List (κ × ν)}
    (distinct : ((entries ++ stored).map Prod.fst).Nodup) :
    putAll entries stored = entries ++ stored := by
  induction stored generalizing entries with
  | nil => exact (List.append_nil entries).symm
  | cons entry stored ih =>
      rw [List.append_cons] at distinct
      have isNew : entry.1 ∉ entries.map Prod.fst := by
        rw [List.map_append, List.map_append] at distinct
        have apart := (List.nodup_append.mp (List.nodup_append.mp distinct).1).2.2
        intro member
        exact apart _ member _ (List.mem_singleton_self _) rfl
      rw [putAll, List.foldl_cons, put_of_notMem isNew, ← putAll, ih distinct, ← List.append_cons]

/-- What is found under a key that is listed with a function of it. -/
theorem lookup_map {keys : List κ} (value : κ → ν) (key : κ) :
    (keys.map fun key => (key, value key)).lookup key =
      if keys.contains key then some (value key) else none := by
  by_cases member : key ∈ keys
  · rw [List.lookup_graph value member, if_pos (List.contains_iff_mem.mpr member)]
  · rw [if_neg (fun isListed => member (List.contains_iff_mem.mp isListed)), lookup_eq_none,
      List.map_map]
    intro isKey
    rcases List.mem_map.mp isKey with ⟨other, isOther, rfl⟩
    exact member isOther

omit [LawfulBEq κ] in
/-- Entries of the same keys with related values have related values under every key. -/
theorem lookup_related {μ : Type} {related : ν → μ → Prop} {entries : List (κ × ν)}
    {others : List (κ × μ)}
    (each : List.Forall₂ (fun entry other => entry.1 = other.1 ∧ related entry.2 other.2) entries others)
    (key : κ) : Option.Rel related (entries.lookup key) (others.lookup key) := by
  induction each with
  | nil => exact Option.Rel.none
  | @cons entry other entries others isRelated _ ih =>
      rw [List.lookup_cons, List.lookup_cons, isRelated.1]
      cases key == other.1 with
      | true => exact Option.Rel.some isRelated.2
      | false => exact ih

end Entries
