import Mathlib.Data.List.AList
import Mathlib.Data.List.Perm.Basic

/-!
# Caches

`Cache` keeps its entries in a map and the order of their uses in a list.  It behaves as one list
of pairs, in which a use moves a pair to the end.
-/

namespace Tinox.Core

/-- `Cache`.  A `Map` is a finite map. -/
structure Cache (K V : Type) where
  data : AList fun _ : K => V
  maxSize : Int
  accessOrder : List K

/-- A call. -/
inductive Cache.Call (K V : Type) where
  | get (key : K)
  | set (key : K) (value : V)
  | remove (key : K)
  | clear

/-- What a call returns. -/
inductive Cache.Answer (V : Type) where
  | value (value : Option V)
  | removed (removed : Bool)
  | nothing
  deriving DecidableEq

namespace Cache

variable {K V : Type} [DecidableEq K]

/-- `Cache::new`. -/
def new (maxSize : Int) : Cache K V :=
  ⟨∅, maxSize, []⟩

/-- `Cache::touch`. -/
def touch (cache : Cache K V) (key : K) : Cache K V :=
  { cache with accessOrder := cache.accessOrder.erase key ++ [key] }

/-- `Cache::get`. -/
def get (cache : Cache K V) (key : K) : Option V × Cache K V :=
  match cache.data.lookup key with
  | some value => (some value, cache.touch key)
  | none => (none, cache)

/-- `Cache::set`.  It breaks down where there is no oldest key. -/
def set (cache : Cache K V) (key : K) (value : V) : Option (Cache K V) :=
  if key ∈ cache.data then
    some ({ cache with data := cache.data.insert key value }.touch key)
  else if cache.data.keys.length ≥ cache.maxSize then
    match cache.accessOrder with
    | [] => none
    | oldestKey :: accessOrder =>
        some { cache with
          data := (cache.data.erase oldestKey).insert key value
          accessOrder := accessOrder ++ [key] }
  else
    some { cache with
      data := cache.data.insert key value
      accessOrder := cache.accessOrder ++ [key] }

/-- `Cache::remove`. -/
def remove (cache : Cache K V) (key : K) : Bool × Cache K V :=
  if key ∈ cache.data then
    (true, { cache with data := cache.data.erase key, accessOrder := cache.accessOrder.erase key })
  else (false, cache)

/-- `Cache::clear`. -/
def clear (cache : Cache K V) : Cache K V :=
  { cache with data := ∅, accessOrder := [] }

/-- What a call returns and leaves. -/
def call (cache : Cache K V) : Call K V → Option (Answer V × Cache K V)
  | .get key => let (value, cache) := cache.get key; some (.value value, cache)
  | .set key value => (cache.set key value).map fun cache => (.nothing, cache)
  | .remove key => let (removed, cache) := cache.remove key; some (.removed removed, cache)
  | .clear => some (.nothing, cache.clear)

/-- What a sequence of calls returns and leaves. -/
def run (cache : Cache K V) : List (Call K V) → Option (List (Answer V) × Cache K V)
  | [] => some ([], cache)
  | call :: calls => do
      let (answer, cache) ← cache.call call
      let (answers, cache) ← cache.run calls
      return (answer :: answers, cache)

end Cache

/-- The pairs of a cache, the least recently used one first. -/
abbrev Pairs (K V : Type) : Type :=
  List (K × V)

namespace Pairs

open Cache (Call Answer)

variable {K V : Type} [DecidableEq K]

/-- The pairs of the other keys. -/
def without (pairs : Pairs K V) (key : K) : Pairs K V :=
  pairs.filter (·.1 != key)

/-- What a call returns and leaves. -/
def call (maxSize : Int) (pairs : Pairs K V) : Call K V → Answer V × Pairs K V
  | .get key =>
      match pairs.lookup key with
      | some value => (.value (some value), pairs.without key ++ [(key, value)])
      | none => (.value none, pairs)
  | .set key value =>
      if (pairs.lookup key).isSome then (.nothing, pairs.without key ++ [(key, value)])
      else if pairs.length ≥ maxSize then (.nothing, pairs.tail ++ [(key, value)])
      else (.nothing, pairs ++ [(key, value)])
  | .remove key => (.removed (pairs.lookup key).isSome, pairs.without key)
  | .clear => (.nothing, [])

/-- What a sequence of calls returns and leaves. -/
def run (maxSize : Int) (pairs : Pairs K V) : List (Call K V) → List (Answer V) × Pairs K V
  | [] => ([], pairs)
  | call :: calls =>
      let (answer, pairs) := pairs.call maxSize call
      let (answers, pairs) := pairs.run maxSize calls
      (answer :: answers, pairs)

variable {pairs : Pairs K V} {key other : K}

theorem map_without (nodup : (pairs.map Prod.fst).Nodup) (key : K) :
    (pairs.without key).map Prod.fst = (pairs.map Prod.fst).erase key := by
  rw [nodup.erase_eq_filter, List.filter_map]
  rfl

theorem lookup_without : (pairs.without key).lookup other =
    if other = key then none else pairs.lookup other := by
  induction pairs with
  | nil => simp [without]
  | cons pair pairs ih =>
      rw [without] at ih ⊢
      by_cases same : pair.1 = key
      · grind
      · grind

theorem lookup_eq_none_iff : pairs.lookup key = none ↔ key ∉ pairs.map Prod.fst := by
  simp only [List.lookup_eq_none_iff, List.mem_map, bne_iff_ne]
  grind

end Pairs

namespace Cache

variable {K V : Type} [DecidableEq K] {cache : Cache K V} {pairs : Pairs K V} {maxSize : Int}
  {key : K} {value : V}

theorem lookup_insert (data : AList fun _ : K => V) (key : K) (value : V) (other : K) :
    (data.insert key value).lookup other = if other = key then some value else data.lookup other := by
  by_cases same : other = key
  · rw [if_pos same, same, AList.lookup_insert]
  · rw [if_neg same, AList.lookup_insert_ne same]

theorem lookup_erase (data : AList fun _ : K => V) (key other : K) :
    (data.erase key).lookup other = if other = key then none else data.lookup other := by
  by_cases same : other = key
  · rw [if_pos same, same, AList.lookup_erase]
  · rw [if_neg same, AList.lookup_erase_ne same]

/-- A cache holds a list of pairs. -/
structure Holds (maxSize : Int) (cache : Cache K V) (pairs : Pairs K V) : Prop where
  sameSize : cache.maxSize = maxSize
  order : cache.accessOrder = pairs.map Prod.fst
  nodup : (pairs.map Prod.fst).Nodup
  lookup : ∀ key, cache.data.lookup key = pairs.lookup key
  bounded : pairs.length ≤ maxSize

namespace Holds

theorem mem_iff (holds : Holds maxSize cache pairs) (key : K) :
    key ∈ cache.data ↔ key ∈ pairs.map Prod.fst := by
  rw [← AList.lookup_isSome, holds.lookup, Option.isSome_iff_ne_none, ne_eq,
    Pairs.lookup_eq_none_iff, not_not]

theorem length_eq (holds : Holds maxSize cache pairs) : cache.data.keys.length = pairs.length := by
  have same := (List.perm_ext_iff_of_nodup cache.data.keys_nodup holds.nodup).mpr holds.mem_iff
  simpa using same.length_eq

/-- The map after a call, where its lookups are known. -/
theorem of_lookup {data : AList fun _ : K => V} {accessOrder : List K} {pairs' : Pairs K V}
    (holds : Holds maxSize cache pairs) (order : accessOrder = pairs'.map Prod.fst)
    (nodup : (pairs'.map Prod.fst).Nodup) (lookup : ∀ key, data.lookup key = pairs'.lookup key)
    (bounded : pairs'.length ≤ maxSize) : Holds maxSize ⟨data, cache.maxSize, accessOrder⟩ pairs' :=
  ⟨holds.sameSize, order, nodup, lookup, bounded⟩

/-- A key that is used moves to the end. -/
theorem touch {data : AList fun _ : K => V} (holds : Holds maxSize cache pairs)
    (member : key ∈ pairs.map Prod.fst)
    (lookup : ∀ other, data.lookup other =
      if other = key then some value else cache.data.lookup other) :
    Holds maxSize (Cache.touch { cache with data } key) (pairs.without key ++ [(key, value)]) := by
  have keys := Pairs.map_without holds.nodup key
  apply holds.of_lookup
  · simp [holds.order, keys]
  · rw [List.map_append, keys]
    exact List.nodup_append_comm.mp
      ((holds.nodup.erase key).cons fun kept => holds.nodup.not_mem_erase kept)
  · intro other
    rw [lookup, List.lookup_append, Pairs.lookup_without, holds.lookup]
    grind
  · have length := congrArg List.length keys
    rw [List.length_erase_of_mem member] at length
    have some_ := List.length_pos_of_mem member
    have bounded := holds.bounded
    simp at length some_ ⊢
    omega

/-- A new key is put at the end, where there is room. -/
theorem push (holds : Holds maxSize cache pairs) (absent : key ∉ pairs.map Prod.fst)
    (room : pairs.length + 1 ≤ maxSize) :
    Holds maxSize { cache with
      data := cache.data.insert key value, accessOrder := cache.accessOrder ++ [key] }
      (pairs ++ [(key, value)]) := by
  apply holds.of_lookup
  · simp [holds.order]
  · rw [List.map_append]
    exact List.nodup_append_comm.mp (holds.nodup.cons absent)
  · intro other
    rw [List.lookup_append, lookup_insert, holds.lookup]
    grind [Pairs.lookup_eq_none_iff]
  · simpa using room

/-- The oldest key is dropped. -/
theorem tail {oldest : K × V} (holds : Holds maxSize cache (oldest :: pairs)) :
    Holds maxSize { cache with
      data := cache.data.erase oldest.1, accessOrder := cache.accessOrder.tail } pairs := by
  have nodup : oldest.1 ∉ pairs.map Prod.fst ∧ (pairs.map Prod.fst).Nodup :=
    List.nodup_cons.mp holds.nodup
  apply holds.of_lookup _ nodup.2
  · intro other
    rw [lookup_erase, holds.lookup]
    grind [Pairs.lookup_eq_none_iff]
  · have bounded := holds.bounded
    simp at bounded
    omega
  · simp [holds.order]

/-- A key is removed. -/
theorem without (holds : Holds maxSize cache pairs) :
    Holds maxSize { cache with
      data := cache.data.erase key, accessOrder := cache.accessOrder.erase key }
      (pairs.without key) := by
  have keys := Pairs.map_without holds.nodup key
  apply holds.of_lookup
  · rw [holds.order, keys]
  · rw [keys]
    exact holds.nodup.erase key
  · intro other
    rw [Pairs.lookup_without, lookup_erase, holds.lookup]
  · exact Int.le_trans (Int.ofNat_le.mpr (List.length_filter_le _ _)) holds.bounded

/-- `set` agrees with that on the pairs. -/
theorem set (positive : 1 ≤ maxSize) (holds : Holds maxSize cache pairs) (key : K) (value : V) :
    ∃ cache', cache.set key value = some cache' ∧
      Holds maxSize cache' (pairs.call maxSize (.set key value)).2 := by
  obtain rfl := holds.sameSize
  simp only [Cache.set, Pairs.call, holds.mem_iff, holds.length_eq]
  by_cases member : key ∈ pairs.map Prod.fst
  · have found : (pairs.lookup key).isSome := by
      rw [Option.isSome_iff_ne_none, ne_eq, Pairs.lookup_eq_none_iff]
      exact not_not.mpr member
    rw [if_pos member, if_pos found]
    exact ⟨_, rfl, holds.touch member (lookup_insert _ _ _)⟩
  · have notFound : ¬ (pairs.lookup key).isSome := by
      simp [Pairs.lookup_eq_none_iff.mpr member]
    rw [if_neg member, if_neg notFound]
    by_cases full : pairs.length ≥ cache.maxSize
    · rw [if_pos full, if_pos full]
      cases pairs with
      | nil =>
          simp at full
          omega
      | cons oldest pairs =>
          rw [holds.order]
          have tail := holds.tail
          have room : pairs.length + 1 ≤ cache.maxSize := by simpa using holds.bounded
          have absent : key ∉ pairs.map Prod.fst := fun inside => member (.tail _ inside)
          rw [holds.order] at tail
          exact ⟨_, rfl, tail.push absent room⟩
    · rw [if_neg full, if_neg full]
      exact ⟨_, rfl, holds.push member (by omega)⟩

/-- Every call agrees with that on the pairs. -/
theorem call (positive : 1 ≤ maxSize) (holds : Holds maxSize cache pairs) (call : Call K V) :
    ∃ cache', cache.call call = some ((pairs.call maxSize call).1, cache') ∧
      Holds maxSize cache' (pairs.call maxSize call).2 := by
  cases call with
  | get key =>
      cases found : pairs.lookup key with
      | none => exact ⟨cache, by simp [Cache.call, get, Pairs.call, holds.lookup, found, holds]⟩
      | some value =>
          have member : key ∈ pairs.map Prod.fst := by
            by_contra absent
            rw [Pairs.lookup_eq_none_iff.mpr absent] at found
            cases found
          refine ⟨cache.touch key, ?_, ?_⟩
          · simp [Cache.call, get, Pairs.call, holds.lookup, found]
          · simp only [Pairs.call, found]
            apply holds.touch member
            intro other
            by_cases same : other = key
            · simp [same, holds.lookup, found]
            · simp [same]
  | set key value =>
      rcases holds.set positive key value with ⟨cache', isSet, holds'⟩
      refine ⟨cache', ?_, holds'⟩
      rw [Cache.call, isSet, Pairs.call]
      split
      · rfl
      · split <;> rfl
  | remove key =>
      rw [Cache.call, remove, Pairs.call]
      by_cases member : key ∈ cache.data
      · have found : (pairs.lookup key).isSome := by rwa [← holds.lookup, AList.lookup_isSome]
        rw [if_pos member, found]
        exact ⟨_, rfl, holds.without⟩
      · have notFound : (pairs.lookup key).isSome = false := by
          rwa [← holds.lookup, ← Bool.not_eq_true, AList.lookup_isSome]
        have absent := (holds.mem_iff key).not.mp member
        have unchanged : pairs.without key = pairs := by
          apply List.filter_eq_self.mpr
          intro pair inside
          simp only [bne_iff_ne]
          rintro rfl
          exact absent (List.mem_map_of_mem inside)
        rw [if_neg member, notFound, unchanged]
        exact ⟨_, rfl, holds⟩
  | clear =>
      have empty : ((([] : Pairs K V).length : Nat) : Int) ≤ maxSize := Int.le_trans Int.one_nonneg positive
      exact ⟨_, rfl, holds.of_lookup rfl List.nodup_nil (fun _ => rfl) empty⟩

/-- Every sequence of calls agrees with that on the pairs. -/
theorem run (positive : 1 ≤ maxSize) (holds : Holds maxSize cache pairs) (calls : List (Call K V)) :
    ∃ cache', cache.run calls = some ((pairs.run maxSize calls).1, cache') ∧
      Holds maxSize cache' (pairs.run maxSize calls).2 := by
  induction calls generalizing cache pairs with
  | nil => exact ⟨cache, rfl, holds⟩
  | cons call calls ih =>
      rcases holds.call positive call with ⟨middle, first, middleHolds⟩
      rcases ih middleHolds with ⟨cache', later, holds'⟩
      refine ⟨cache', ?_, holds'⟩
      simp [Cache.run, first, later, Pairs.run]

end Holds

end Cache

namespace Pairs

open Cache (Call Answer)

variable {K V : Type} [DecidableEq K] {pairs : Pairs K V} {recent : List K}

/-- The key that a call uses with success. -/
def used : Call K V × Answer V → Option K
  | (.get key, .value (some _)) => some key
  | (.set key _, _) => some key
  | _ => none

/-- The keys that were used, the last use first. -/
def recentlyUsed (calls : List (Call K V)) (answers : List (Answer V)) : List K :=
  ((calls.zip answers).filterMap used).reverse

/-- Keys in the order of their last uses. -/
def Ordered (recent keys : List K) : Prop :=
  keys.Pairwise (fun a b => recent.idxOf b < recent.idxOf a) ∧ ∀ key ∈ keys, key ∈ recent

theorem Ordered.sublist {keys keys' : List K} (ordered : Ordered recent keys)
    (sublist : keys'.Sublist keys) : Ordered recent keys' :=
  ⟨ordered.1.sublist sublist, fun key member => ordered.2 key (sublist.subset member)⟩

/-- A use puts its key at the end. -/
theorem Ordered.use {keys : List K} {key : K} (ordered : Ordered recent keys) (absent : key ∉ keys) :
    Ordered (key :: recent) (keys ++ [key]) := by
  constructor
  · rw [List.pairwise_append]
    refine ⟨?_, List.pairwise_singleton _ _, ?_⟩
    · apply ordered.1.imp_of_mem
      intro a b first second before
      have notFirst : key ≠ a := by rintro rfl; exact absent first
      have notSecond : key ≠ b := by rintro rfl; exact absent second
      simpa [List.idxOf_cons_ne, notFirst, notSecond] using before
    · intro a first b second
      have notFirst : key ≠ a := by rintro rfl; exact absent first
      simp [List.mem_singleton.mp second, List.idxOf_cons_ne _ notFirst]
  · intro other member
    grind [ordered.2 other]

theorem without_keys (pairs : Pairs K V) (key : K) :
    ((pairs.without key).map Prod.fst).Sublist (pairs.map Prod.fst) ∧
      key ∉ (pairs.without key).map Prod.fst := by
  refine ⟨List.filter_sublist.map _, ?_⟩
  rw [← lookup_eq_none_iff, lookup_without, if_pos rfl]

/-- A call keeps the order of the uses. -/
theorem ordered_call (maxSize : Int) (ordered : Ordered recent (pairs.map Prod.fst)) (call : Call K V) :
    Ordered ((used (call, (pairs.call maxSize call).1)).toList ++ recent)
      ((pairs.call maxSize call).2.map Prod.fst) := by
  have moved : ∀ key (value : V), Ordered (key :: recent)
      ((pairs.without key ++ [(key, value)]).map Prod.fst) := by
    intro key value
    rw [List.map_append]
    exact (ordered.sublist (without_keys pairs key).1).use (without_keys pairs key).2
  cases call with
  | get key =>
      rw [Pairs.call]
      split
      · exact moved key _
      · exact ordered
  | set key value =>
      have isUsed : ∀ answer : Answer V, used (.set key value, answer) = some key := fun _ => rfl
      rw [isUsed, Pairs.call]
      split
      · exact moved key value
      · next notFound =>
          have absent : key ∉ pairs.map Prod.fst := by
            rwa [← lookup_eq_none_iff, ← Option.not_isSome_iff_eq_none]
          split
          · rw [List.map_append, List.map_tail]
            exact (ordered.sublist (List.tail_sublist _)).use fun kept => absent (List.mem_of_mem_tail kept)
          · rw [List.map_append]
            exact ordered.use absent
  | remove key => exact ordered.sublist (without_keys pairs key).1
  | clear => exact ordered.sublist (List.nil_sublist _)

theorem ordered_run (maxSize : Int) (ordered : Ordered recent (pairs.map Prod.fst))
    (calls : List (Call K V)) :
    Ordered (recentlyUsed calls (pairs.run maxSize calls).1 ++ recent)
      ((pairs.run maxSize calls).2.map Prod.fst) := by
  induction calls generalizing pairs recent with
  | nil => exact ordered
  | cons call calls ih =>
      have later := ih (ordered_call maxSize ordered call)
      have uses : recentlyUsed (call :: calls) (pairs.run maxSize (call :: calls)).1 ++ recent =
          recentlyUsed calls ((pairs.call maxSize call).2.run maxSize calls).1 ++
            ((used (call, (pairs.call maxSize call).1)).toList ++ recent) := by
        rw [recentlyUsed, Pairs.run, List.zip_cons_cons, List.filterMap_cons]
        cases used (call, (pairs.call maxSize call).1) <;> simp [recentlyUsed]
      rw [uses]
      exact later

end Pairs

/-- `LruCache`. -/
structure LruCache (K V : Type) where
  cache : Cache K V

namespace LruCache

variable {K V : Type} [DecidableEq K]

/-- `LruCache::new`. -/
def new (maxSize : Int) : LruCache K V :=
  ⟨Cache.new maxSize⟩

/-- `LruCache::get`. -/
def get (lru : LruCache K V) (key : K) : Option V × LruCache K V :=
  let (value, cache) := lru.cache.get key
  (value, ⟨cache⟩)

/-- `LruCache::set`. -/
def set (lru : LruCache K V) (key : K) (value : V) : Option (LruCache K V) :=
  (lru.cache.set key value).map LruCache.mk

/-- What a sequence of calls returns and leaves, where it is one of `get` and `set`. -/
def run (lru : LruCache K V) : List (Cache.Call K V) → Option (List (Cache.Answer V) × LruCache K V)
  | [] => some ([], lru)
  | .get key :: calls => do
      let (value, lru) := lru.get key
      let (answers, lru) ← lru.run calls
      return (.value value :: answers, lru)
  | .set key value :: calls => do
      let lru ← lru.set key value
      let (answers, lru) ← lru.run calls
      return (.nothing :: answers, lru)
  | .remove _ :: _ | .clear :: _ => none

/-- The inner cache does the work. -/
theorem run_eq (lru : LruCache K V) {calls : List (Cache.Call K V)}
    (known : ∀ call ∈ calls, (∃ key, call = .get key) ∨ ∃ key value, call = .set key value) :
    lru.run calls = (lru.cache.run calls).map fun (answers, cache) => (answers, ⟨cache⟩) := by
  induction calls generalizing lru with
  | nil => rfl
  | cons call calls ih =>
      rw [List.forall_mem_cons] at known
      rcases known with ⟨⟨key, rfl⟩ | ⟨key, value, rfl⟩, known⟩
      · simp only [run, get, ih _ known, Cache.run, Cache.call, Option.bind_eq_bind, Option.bind_some]
        cases (lru.cache.get key).2.run calls <;> rfl
      · simp only [run, set, Cache.run, Cache.call]
        cases lru.cache.set key value with
        | none => rfl
        | some cache =>
            simp only [Option.map_some, Option.bind_eq_bind, Option.bind_some, ih ⟨cache⟩ known]
            cases cache.run calls <;> rfl

end LruCache

namespace Cache

variable {K V : Type} [DecidableEq K]

/-- A cache drops the least recently used key. -/
theorem run_eq_pairs {maxSize : Int} (positive : 1 ≤ maxSize) (calls : List (Call K V)) :
    let answers := (Pairs.run maxSize [] calls).1
    ∃ cache : Cache K V, (new maxSize).run calls = some (answers, cache) ∧
      (cache.accessOrder.Nodup ∧ ∀ key, key ∈ cache.accessOrder ↔ key ∈ cache.data) ∧
      Pairs.Ordered (Pairs.recentlyUsed calls answers) cache.accessOrder ∧
      cache.data.keys.length ≤ maxSize ∧
      ((∀ call ∈ calls, (∃ key, call = .get key) ∨ ∃ key value, call = .set key value) →
        (LruCache.new maxSize).run calls = some (answers, ⟨cache⟩)) := by
  have start : Holds maxSize (new maxSize : Cache K V) [] := {
    sameSize := rfl
    order := rfl
    nodup := List.nodup_nil
    lookup := fun _ => rfl
    bounded := Int.le_trans Int.one_nonneg positive }
  have ordered : Pairs.Ordered ([] : List K) (([] : Pairs K V).map Prod.fst) :=
    ⟨.nil, fun _ member => absurd member List.not_mem_nil⟩
  rcases start.run positive calls with ⟨cache, run, holds⟩
  refine ⟨cache, run, ⟨?_, ?_⟩, ?_, ?_, ?_⟩
  · rw [holds.order]
    exact holds.nodup
  · intro key
    rw [holds.order, holds.mem_iff]
  · rw [holds.order]
    simpa using Pairs.ordered_run maxSize ordered calls
  · rw [holds.length_eq]
    exact holds.bounded
  · intro known
    rw [LruCache.run_eq _ known, LruCache.new, run]
    rfl

/-- The second key is dropped, as the first one has been used again. -/
theorem run_eq_pairs_evicts :
    ((new 2 : Cache Nat Nat).run [.set 1 10, .set 2 20, .get 1, .set 3 30, .get 2]).map Prod.fst =
      some [.nothing, .nothing, .value (some 10), .nothing, .value none] := by
  rcases run_eq_pairs (show (1 : Int) ≤ 2 by decide)
    ([.set 1 10, .set 2 20, .get 1, .set 3 30, .get 2] : List (Call Nat Nat)) with ⟨cache, run, _⟩
  rw [run]
  rfl

end Cache

end Tinox.Core
