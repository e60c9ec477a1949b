import Mathlib.Data.List.Nodup
import Mathlib.Data.Nat.Bitwise
import Mathlib.Logic.Function.Iterate

/-!
# Tables with open addressing

A table is a ring of slots.  A key is looked for from its home slot on, until it
or an empty slot is met; removed keys leave a mark that is neither.
-/

namespace Probing

/-- Walk from an index to the first one where to stop; `none` when fuel runs out. -/
def probe (stop : Nat → Bool) (next : Nat → Nat) : Nat → Nat → Option Nat
  | 0, _ => none
  | fuel + 1, index => if stop index then some index else probe stop next fuel (next index)

variable {fuel start index : Nat}

section Walk

variable {stop : Nat → Bool} {next : Nat → Nat}

/-- A walk ends at the first index where to stop. -/
theorem probe_eq_some_iff :
    probe stop next fuel start = some index ↔ ∃ n < fuel, next^[n] start = index ∧
      stop index = true ∧ ∀ m < n, stop (next^[m] start) = false := by
  induction fuel generalizing start with
  | zero =>
      constructor
      · intro found
        cases found
      · rintro ⟨n, below, -⟩
        exact absurd below (Nat.not_lt_zero n)
  | succ fuel ih =>
      rw [probe]
      by_cases here : stop start = true
      · rw [if_pos here]
        constructor
        · intro found
          injection found with same
          subst same
          exact ⟨0, Nat.succ_pos fuel, rfl, here, fun m below => absurd below (Nat.not_lt_zero m)⟩
        · rintro ⟨n, -, reached, -, before⟩
          cases n with
          | zero => exact congrArg some reached
          | succ n =>
              have isStop : stop start = false := before 0 (Nat.succ_pos n)
              rw [here] at isStop
              cases isStop
      · rw [if_neg here, ih]
        constructor
        · rintro ⟨n, below, reached, isStop, before⟩
          refine ⟨n + 1, Nat.succ_lt_succ below, reached, isStop, ?_⟩
          intro m smaller
          cases m with
          | zero => exact eq_false_of_ne_true here
          | succ m => exact before m (Nat.lt_of_succ_lt_succ smaller)
        · rintro ⟨n, below, reached, isStop, before⟩
          cases n with
          | zero =>
              rw [← reached] at isStop
              exact absurd isStop here
          | succ n =>
              exact ⟨n, Nat.lt_of_succ_lt_succ below, reached, isStop,
                fun m smaller => before (m + 1) (Nat.succ_lt_succ smaller)⟩

/-- A walk ends when it can reach an index where to stop. -/
theorem probe_isSome {n : Nat} (below : n < fuel) (reaches : stop (next^[n] start) = true) :
    ∃ index, probe stop next fuel start = some index := by
  induction n using Nat.strongRecOn with
  | _ n ih =>
      by_cases earlier : ∃ m < n, stop (next^[m] start) = true
      · rcases earlier with ⟨m, smaller, isStop⟩
        exact ih m smaller (Nat.lt_trans smaller below) isStop
      · refine ⟨_, probe_eq_some_iff.mpr ⟨n, below, rfl, reaches, fun m smaller => ?_⟩⟩
        exact eq_false_of_ne_true fun isStop => earlier ⟨m, smaller, isStop⟩

end Walk

/-- The next index in a ring whose size is a power of two, by a mask. -/
def ringNext (size index : Nat) : Nat :=
  (index + 1) &&& (size - 1)

section Ring

variable {size : Nat}

/-- The mask of a power of two takes the remainder. -/
theorem and_mask (isPower : ∃ k, size = 2 ^ k) (index : Nat) :
    index &&& (size - 1) = index % size := by
  rcases isPower with ⟨k, rfl⟩
  exact Nat.and_two_pow_sub_one_eq_mod index k

theorem size_pos (isPower : ∃ k, size = 2 ^ k) : 0 < size := by
  rcases isPower with ⟨k, rfl⟩
  exact Nat.two_pow_pos k

theorem ringNext_iterate (isPower : ∃ k, size = 2 ^ k) (inside : start < size) (n : Nat) :
    (ringNext size)^[n] start = (start + n) % size := by
  induction n with
  | zero => exact (Nat.mod_eq_of_lt inside).symm
  | succ n ih =>
      rw [Function.iterate_succ_apply', ih, ringNext, and_mask isPower, Nat.mod_add_mod,
        Nat.add_assoc]

/-- Every index of a ring comes up within one round. -/
theorem ring_reaches (startInside : start < size) (inside : index < size) :
    ∃ n < size, (start + n) % size = index := by
  by_cases ahead : start ≤ index
  · refine ⟨index - start, by omega, ?_⟩
    rw [Nat.add_sub_cancel' ahead, Nat.mod_eq_of_lt inside]
  · refine ⟨size - start + index, by omega, ?_⟩
    have whole : start + (size - start + index) = index + size := by omega
    rw [whole, Nat.add_mod_right, Nat.mod_eq_of_lt inside]

/-- A walk in a ring ends within one round, where no earlier index is one to stop. -/
theorem probe_ring {stop : Nat → Bool} (isPower : ∃ k, size = 2 ^ k) (startInside : start < size)
    (found : probe stop (ringNext size) fuel start = some index) :
    ∃ n < size, (start + n) % size = index ∧ stop index = true ∧
      ∀ m < n, stop ((start + m) % size) = false := by
  rcases probe_eq_some_iff.mp found with ⟨n, -, reached, isStop, before⟩
  rw [ringNext_iterate isPower startInside] at reached
  have earlier : ∀ m < n, stop ((start + m) % size) = false := by
    intro m smaller
    rw [← ringNext_iterate isPower startInside]
    exact before m smaller
  refine ⟨n, ?_, reached, isStop, earlier⟩
  by_contra beyond
  have wrapped := earlier (n % size) (Nat.lt_of_lt_of_le (Nat.mod_lt n (size_pos isPower))
    (Nat.le_of_not_lt beyond))
  rw [Nat.add_mod_mod, reached, isStop] at wrapped
  cases wrapped

/-- A walk in a ring ends when there is an index to stop. -/
theorem probe_ring_isSome {stop : Nat → Bool} (isPower : ∃ k, size = 2 ^ k)
    {fuel start index : Nat} (enough : size ≤ fuel) (startInside : start < size)
    (inside : index < size) (isStop : stop index = true) :
    ∃ found, probe stop (ringNext size) fuel start = some found := by
  rcases ring_reaches startInside inside with ⟨n, below, reached⟩
  apply probe_isSome (Nat.lt_of_lt_of_le below enough)
  rw [ringNext_iterate isPower startInside, reached]
  exact isStop

end Ring

/-- The slots of a table. -/
inductive Slot (κ ν : Type) where
  | empty
  | deleted
  | live (key : κ) (value : ν)
  deriving DecidableEq

namespace Slot

variable {κ ν : Type}

/-- The key and value of a slot. -/
def content? : Slot κ ν → Option (κ × ν)
  | .live key value => some (key, value)
  | .empty | .deleted => none

/-- No key has been here. -/
def isEmpty : Slot κ ν → Bool
  | .empty => true
  | .deleted | .live .. => false

/-- A key is here. -/
def isLive : Slot κ ν → Bool
  | .live .. => true
  | .empty | .deleted => false

/-- A search for a key stops here: at the key, or where it cannot be behind. -/
def endsSearch [DecidableEq κ] (key : κ) : Slot κ ν → Bool
  | .empty => true
  | .deleted => false
  | .live found _ => found = key

/-- An insertion of a key stops here: at the key, or where there is room. -/
def endsInsert [DecidableEq κ] (key : κ) : Slot κ ν → Bool
  | .empty | .deleted => true
  | .live found _ => found = key

theorem isEmpty_iff {slot : Slot κ ν} : slot.isEmpty = true ↔ slot = .empty := by
  cases slot <;> simp [isEmpty]

theorem content?_eq_some_iff {slot : Slot κ ν} {entry : κ × ν} :
    slot.content? = some entry ↔ slot = .live entry.1 entry.2 := by
  cases slot <;> simp [content?, Prod.ext_iff]

end Slot

section Table

variable {κ ν : Type}

/-- The slot at an index. -/
def slotAt (slots : List (Slot κ ν)) (index : Nat) : Slot κ ν :=
  slots.getD index .empty

/-- The key has this value. -/
def Holds (slots : List (Slot κ ν)) (key : κ) (value : ν) : Prop :=
  ∃ index, slotAt slots index = .live key value

/-- All keys with their values, from the first slot on. -/
def entries (slots : List (Slot κ ν)) : List (κ × ν) :=
  slots.filterMap Slot.content?

/-- A way from an index to another one that crosses no empty slot. -/
def Reaches (slots : List (Slot κ ν)) (start index : Nat) : Prop :=
  ∃ n < slots.length, (start + n) % slots.length = index ∧
    ∀ m < n, slotAt slots ((start + m) % slots.length) ≠ .empty

/-- No deleted slot comes between an index and the key. -/
def NoDeletedBefore (slots : List (Slot κ ν)) (start : Nat) (key : κ) : Prop :=
  ∀ n < slots.length, ∀ value, slotAt slots ((start + n) % slots.length) = .live key value →
    ∀ m < n, slotAt slots ((start + m) % slots.length) ≠ .deleted

/-- Each key is in one slot at most, which its search reaches. -/
structure WellFormed (home : κ → Nat) (slots : List (Slot κ ν)) : Prop where
  inside : ∀ key, home key < slots.length
  once : ∀ i j key v w, slotAt slots i = .live key v → slotAt slots j = .live key w → i = j
  reaches : ∀ i key v, slotAt slots i = .live key v → Reaches slots (home key) i

/-! ### Slots -/

variable {slots : List (Slot κ ν)} {key : κ}

theorem slotAt_eq (inside : index < slots.length) : slotAt slots index = slots[index] :=
  List.getD_eq_getElem slots _ inside

theorem inside_of_ne_empty (used : slotAt slots index ≠ .empty) : index < slots.length := by
  by_contra outside
  exact used (List.getD_eq_default _ _ (Nat.le_of_not_lt outside))

theorem slotAt_replicate (size index : Nat) :
    slotAt (List.replicate size (Slot.empty : Slot κ ν)) index = .empty := by
  rw [slotAt, List.getD_eq_getElem?_getD, List.getElem?_replicate]
  split <;> rfl

theorem slotAt_set_self (inside : index < slots.length) (slot : Slot κ ν) :
    slotAt (slots.set index slot) index = slot := by
  rw [slotAt_eq (by rwa [List.length_set])]
  exact List.getElem_set_self _

theorem slotAt_set_ne {other : Nat} (apart : index ≠ other) (slot : Slot κ ν) :
    slotAt (slots.set index slot) other = slotAt slots other := by
  rw [slotAt, slotAt, List.getD_eq_getElem?_getD, List.getD_eq_getElem?_getD,
    List.getElem?_set_ne apart]

/-- A slot after a change is the new one or the old one. -/
theorem slotAt_set_or (slots : List (Slot κ ν)) (index : Nat) (slot : Slot κ ν) (other : Nat) :
    slotAt (slots.set index slot) other = slot ∨
      slotAt (slots.set index slot) other = slotAt slots other := by
  by_cases same : index = other
  · subst same
    by_cases inside : index < slots.length
    · exact Or.inl (slotAt_set_self inside slot)
    · rw [List.set_eq_of_length_le (Nat.le_of_not_lt inside)]
      exact Or.inr rfl
  · exact Or.inr (slotAt_set_ne same slot)

theorem mem_entries {value : ν} : (key, value) ∈ entries slots ↔ Holds slots key value := by
  rw [entries, List.mem_filterMap]
  constructor
  · rintro ⟨slot, member, isEntry⟩
    rcases List.getElem_of_mem member with ⟨index, inside, rfl⟩
    exact ⟨index, (slotAt_eq inside).trans (Slot.content?_eq_some_iff.mp isEntry)⟩
  · rintro ⟨index, isLive⟩
    have inside : index < slots.length := by
      apply inside_of_ne_empty
      rw [isLive]
      nofun
    refine ⟨_, List.getElem_mem inside, ?_⟩
    rw [← slotAt_eq inside, isLive]
    rfl

theorem length_entries (slots : List (Slot κ ν)) :
    (entries slots).length = slots.countP Slot.isLive := by
  rw [entries, List.length_filterMap_eq_countP]
  apply List.countP_congr
  intro slot _
  cases slot <;> simp [Slot.content?, Slot.isLive]

/-- A change of one slot changes a count of slots by that slot. -/
theorem countP_set (inside : index < slots.length) (p : Slot κ ν → Bool) (slot : Slot κ ν) :
    (slots.set index slot).countP p + (p (slotAt slots index)).toNat =
      slots.countP p + (p slot).toNat := by
  have counted : p slots[index] = true → 0 < slots.countP p := fun isCounted =>
    List.countP_pos_iff.mpr ⟨_, List.getElem_mem inside, isCounted⟩
  rw [slotAt_eq inside, List.countP_set inside]
  cases old : p slots[index] with
  | false => cases p slot <;> rfl
  | true =>
      have positive := counted old
      cases p slot <;> simp only [if_true, Bool.false_eq_true, if_false, Bool.toNat_true,
        Bool.toNat_false] <;> omega

theorem Reaches.inside (reaches : Reaches slots start index) : index < slots.length := by
  rcases reaches with ⟨n, below, reached, -⟩
  exact reached ▸ Nat.mod_lt _ (Nat.lt_of_le_of_lt (Nat.zero_le n) below)

/-- A probe that stops at empty slots crosses none. -/
theorem reaches_of_probe (isPower : ∃ k, slots.length = 2 ^ k) (stop : Slot κ ν → Bool)
    (stopsEmpty : stop .empty = true) (inside : start < slots.length)
    (found : probe (fun i => stop (slotAt slots i)) (ringNext slots.length) fuel start = some index) :
    Reaches slots start index ∧ stop (slotAt slots index) = true := by
  rcases probe_ring isPower inside found with ⟨n, below, reached, isStop, before⟩
  refine ⟨⟨n, below, reached, fun m smaller isEmpty => ?_⟩, isStop⟩
  have stays := before m smaller
  rw [isEmpty, stopsEmpty] at stays
  cases stays

namespace WellFormed

variable {home : κ → Nat} {slots : List (Slot κ ν)}

theorem value_eq (wellFormed : WellFormed home slots) {v w : ν} (first : Holds slots key v)
    (second : Holds slots key w) : v = w := by
  rcases first with ⟨i, isFirst⟩
  rcases second with ⟨j, isSecond⟩
  have same := wellFormed.once i j key v w isFirst isSecond
  rw [same, isSecond] at isFirst
  injection isFirst with _ same
  exact same.symm

/-- The keys are different ones. -/
theorem nodup_keys (wellFormed : WellFormed home slots) :
    ((entries slots).map Prod.fst).Nodup := by
  rw [List.Nodup, List.pairwise_map, entries, List.pairwise_filterMap, List.pairwise_iff_getElem]
  intro i j iInside jInside before entry isEntry entry' isEntry' sameKey
  rw [Slot.content?_eq_some_iff, ← slotAt_eq] at isEntry isEntry'
  rw [← sameKey] at isEntry'
  exact Nat.ne_of_lt before (wellFormed.once i j _ _ _ isEntry isEntry')

/-- A search ends at the key, or the key is not in the table. -/
theorem search_spec [DecidableEq κ] (wellFormed : WellFormed home slots)
    (isPower : ∃ k, slots.length = 2 ^ k)
    (found : probe (fun i => (slotAt slots i).endsSearch key) (ringNext slots.length) fuel (home key) = some index) :
    (∃ value, slotAt slots index = .live key value) ∨
      (slotAt slots index = .empty ∧ ∀ value, ¬ Holds slots key value) := by
  rcases probe_ring isPower (wellFormed.inside key) found with
    ⟨n, below, reached, isStop, before⟩
  cases here : slotAt slots index with
  | live other value =>
      rw [here] at isStop
      have same : other = key := of_decide_eq_true isStop
      exact Or.inl ⟨value, by rw [same]⟩
  | deleted =>
      rw [here] at isStop
      cases isStop
  | empty =>
      refine Or.inr ⟨rfl, ?_⟩
      rintro value ⟨place, isKey⟩
      rcases wellFormed.reaches place key value isKey with ⟨m, _, toKey, noEmpty⟩
      rcases Nat.lt_trichotomy m n with earlier | same | later
      · have stays := before m earlier
        rw [toKey, isKey] at stays
        exact absurd (decide_eq_true rfl) (ne_true_of_eq_false stays)
      · rw [← reached, ← same, toKey, isKey] at here
        cases here
      · exact noEmpty n later (reached.symm ▸ here)

/-- An insertion ends at the key or where there is room for it; if no deleted slot comes
before the key, then the key is not in the table in the second case. -/
theorem insert_spec [DecidableEq κ] (wellFormed : WellFormed home slots)
    (isPower : ∃ k, slots.length = 2 ^ k) (inOrder : NoDeletedBefore slots (home key) key)
    (found : probe (fun i => (slotAt slots i).endsInsert key) (ringNext slots.length) fuel (home key) = some index) :
    (∃ value, slotAt slots index = .live key value) ∨
      ((slotAt slots index).isLive = false ∧ ∀ value, ¬ Holds slots key value) := by
  rcases probe_ring isPower (wellFormed.inside key) found with
    ⟨n, below, reached, isStop, before⟩
  have absent : (slotAt slots index).isLive = false → ∀ value, ¬ Holds slots key value := by
    rintro notLive value ⟨place, isKey⟩
    rcases wellFormed.reaches place key value isKey with ⟨m, inRound, toKey, noEmpty⟩
    rcases Nat.lt_trichotomy m n with earlier | same | later
    · have stays := before m earlier
      rw [toKey, isKey] at stays
      exact absurd (decide_eq_true rfl) (ne_true_of_eq_false stays)
    · rw [← reached, ← same, toKey, isKey] at notLive
      cases notLive
    · have notEmpty := noEmpty n later
      have notDeleted := inOrder m inRound value (toKey.symm ▸ isKey) n later
      rw [reached] at notEmpty notDeleted
      cases here : slotAt slots index with
      | empty => exact notEmpty here
      | deleted => exact notDeleted here
      | live other w =>
          rw [here] at notLive
          cases notLive
  cases here : slotAt slots index with
  | live other value =>
      rw [here] at isStop
      have same : other = key := of_decide_eq_true isStop
      exact Or.inl ⟨value, by rw [same]⟩
  | deleted | empty => exact Or.inr ⟨rfl, absent (by rw [here]; rfl)⟩

/-- A change of a slot that leaves no new empty one keeps all ways. -/
theorem reaches_set {start index : Nat} (reaches : Reaches slots start index) (place : Nat)
    {slot : Slot κ ν} (used : slot ≠ .empty) : Reaches (slots.set place slot) start index := by
  rcases reaches with ⟨n, below, reached, noEmpty⟩
  refine ⟨n, by rwa [List.length_set], by rwa [List.length_set], fun m smaller => ?_⟩
  rw [List.length_set]
  by_cases here : place = (start + m) % slots.length
  · have inside : place < slots.length := here ▸ Nat.mod_lt _ (Nat.lt_of_le_of_lt (Nat.zero_le _) below)
    rw [← here, slotAt_set_self inside]
    exact used
  · rw [slotAt_set_ne here]
    exact noEmpty m smaller

/-- Store a key where it is, or where its search gets to if it is nowhere. -/
theorem put (wellFormed : WellFormed home slots) (inside : index < slots.length)
    (reaches : Reaches slots (home key) index)
    (room : (∃ old, slotAt slots index = .live key old) ∨ ((slotAt slots index).isLive = false ∧ ∀ old, ¬ Holds slots key old))
    (value : ν) : WellFormed home (slots.set index (.live key value)) where
  inside other := by
    rw [List.length_set]
    exact wellFormed.inside other
  once := by
    have new : ∀ i v, slotAt (slots.set index (.live key value)) i = .live key v → i = index := by
      intro i v isKey
      by_contra apart
      rw [slotAt_set_ne (Ne.symm apart)] at isKey
      rcases room with ⟨old, isOld⟩ | ⟨-, absent⟩
      · exact apart (wellFormed.once i index key v old isKey isOld)
      · exact absent v ⟨i, isKey⟩
    intro i j other v w isFirst isSecond
    by_cases same : other = key
    · subst same
      rw [new i v isFirst, new j w isSecond]
    · have notHere : ∀ k u, slotAt (slots.set index (.live key value)) k = .live other u →
          index ≠ k := by
        rintro k u isOther rfl
        rw [slotAt_set_self inside] at isOther
        injection isOther with sameKey
        exact same sameKey.symm
      rw [slotAt_set_ne (notHere i v isFirst)] at isFirst
      rw [slotAt_set_ne (notHere j w isSecond)] at isSecond
      exact wellFormed.once i j other v w isFirst isSecond
  reaches := by
    intro i other v isOther
    by_cases same : index = i
    · subst same
      rw [slotAt_set_self inside] at isOther
      injection isOther with sameKey
      exact sameKey ▸ reaches_set reaches index (by nofun)
    · rw [slotAt_set_ne same] at isOther
      exact reaches_set (wellFormed.reaches i other v isOther) index (by nofun)

/-- Mark the slot of a key as deleted. -/
theorem delete (wellFormed : WellFormed home slots) (inside : index < slots.length) :
    WellFormed home (slots.set index .deleted) := by
  have older : ∀ i key v, slotAt (slots.set index .deleted) i = .live key v →
      slotAt slots i = .live key v := by
    intro i key v isLive
    by_cases same : index = i
    · subst same
      rw [slotAt_set_self inside] at isLive
      cases isLive
    · rwa [slotAt_set_ne same] at isLive
  constructor
  · intro key
    rw [List.length_set]
    exact wellFormed.inside key
  · intro i j key v w isFirst isSecond
    exact wellFormed.once i j key v w (older i key v isFirst) (older j key w isSecond)
  · intro i key v isLive
    exact reaches_set (wellFormed.reaches i key v (older i key v isLive)) index (by nofun)

/-- After a key is stored, it has the new value and the other keys have theirs. -/
theorem holds_put (wellFormed : WellFormed home slots) (inside : index < slots.length)
    (room : (∃ old, slotAt slots index = .live key old) ∨ ((slotAt slots index).isLive = false ∧ ∀ old, ¬ Holds slots key old))
    (value : ν) (other : κ) (v : ν) : Holds (slots.set index (.live key value)) other v ↔
      (other = key ∧ v = value) ∨ (other ≠ key ∧ Holds slots other v) := by
  constructor
  · rintro ⟨i, isOther⟩
    by_cases here : index = i
    · subst here
      rw [slotAt_set_self inside] at isOther
      injection isOther with sameKey sameValue
      exact Or.inl ⟨sameKey.symm, sameValue.symm⟩
    · rw [slotAt_set_ne here] at isOther
      refine Or.inr ⟨?_, i, isOther⟩
      rintro rfl
      rcases room with ⟨old, isOld⟩ | ⟨-, absent⟩
      · exact here (wellFormed.once index i other old v isOld isOther)
      · exact absent v ⟨i, isOther⟩
  · rintro (⟨rfl, rfl⟩ | ⟨apart, i, isOther⟩)
    · exact ⟨index, slotAt_set_self inside _⟩
    · refine ⟨i, ?_⟩
      rw [slotAt_set_ne]
      · exact isOther
      · rintro rfl
        rcases room with ⟨old, isOld⟩ | ⟨notLive, -⟩
        · rw [isOld] at isOther
          injection isOther with sameKey
          exact apart sameKey.symm
        · rw [isOther] at notLive
          cases notLive

/-- After a key is deleted, it has no value and the other keys have theirs. -/
theorem holds_delete (wellFormed : WellFormed home slots) {old : ν}
    (isKey : slotAt slots index = .live key old) (other : κ) (v : ν) :
    Holds (slots.set index .deleted) other v ↔ other ≠ key ∧ Holds slots other v := by
  have inside : index < slots.length := inside_of_ne_empty (by rw [isKey]; nofun)
  constructor
  · rintro ⟨i, isOther⟩
    by_cases here : index = i
    · subst here
      rw [slotAt_set_self inside] at isOther
      cases isOther
    · rw [slotAt_set_ne here] at isOther
      refine ⟨?_, i, isOther⟩
      rintro rfl
      exact here (wellFormed.once index i other old v isKey isOther)
  · rintro ⟨apart, i, isOther⟩
    refine ⟨i, ?_⟩
    rw [slotAt_set_ne]
    · exact isOther
    · rintro rfl
      rw [isKey] at isOther
      injection isOther with sameKey
      exact apart sameKey.symm

/-- A table of empty slots is well formed and holds nothing. -/
theorem replicate_empty {size : Nat} (inside : ∀ key, home key < size) :
    WellFormed home (List.replicate size (Slot.empty : Slot κ ν)) := by
  have notLive : ∀ i key v, slotAt (List.replicate size (Slot.empty : Slot κ ν)) i ≠ .live key v := by
    intro i key v isLive
    rw [slotAt_replicate] at isLive
    cases isLive
  constructor
  · intro key
    rw [List.length_replicate]
    exact inside key
  · intro i _ key v _ isLive
    exact absurd isLive (notLive i key v)
  · intro i key v isLive
    exact absurd isLive (notLive i key v)

end WellFormed

end Table

end Probing
