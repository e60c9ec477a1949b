import Mathlib.Data.List.Nodup
import Tinox.Data.Runs

/-!
# Pools of objects

`Pool::acquire` takes a released object, or makes a new one.  An object that is taken again is not
listed as in use, so that it does not count and its next release is ignored.
-/

namespace Tinox.Core

/-- `Pool`, with the number of objects that its factory has made. -/
structure Pool (T : Type) where
  available : List T
  inUse : List T
  maxSize : Int
  factory : Nat → T
  made : Nat

namespace Pool

variable {T : Type}

/-- `Pool::newWithFactory`.  The factory is given by the objects of its calls. -/
def newWithFactory (maxSize : Int) (factory : Nat → T) : Pool T :=
  ⟨[], [], maxSize, factory, 0⟩

/-- `Pool::acquire`. -/
def acquire (pool : Pool T) : Except String (T × Pool T) :=
  match pool.available.getLast? with
  | some obj => .ok (obj, { pool with available := pool.available.dropLast })
  | none =>
      if pool.inUse.length < pool.maxSize then
        let obj := pool.factory pool.made
        .ok (obj, { pool with inUse := pool.inUse ++ [obj], made := pool.made + 1 })
      else .error "Pool exhausted"

/-- Without released objects `acquire` makes one where there is room. -/
theorem acquire_of_nil {pool : Pool T} (fresh : pool.available = []) :
    pool.acquire =
      if pool.inUse.length < pool.maxSize then
        .ok (pool.factory pool.made, { pool with
          inUse := pool.inUse ++ [pool.factory pool.made], made := pool.made + 1 })
      else .error "Pool exhausted" := by
  rw [acquire, fresh]
  rfl

variable [DecidableEq T]

/-- `Pool::release`. -/
def release (pool : Pool T) (obj : T) : Pool T :=
  match pool.inUse.idxOf? obj with
  | some i =>
      { pool with inUse := pool.inUse.eraseIdx i, available := pool.available ++ [obj] }
  | none => pool

theorem release_of_mem {pool : Pool T} {obj : T} (member : obj ∈ pool.inUse) :
    pool.release obj =
      { pool with inUse := pool.inUse.erase obj, available := pool.available ++ [obj] } := by
  cases found : pool.inUse.idxOf? obj with
  | none => exact absurd member (List.idxOf?_eq_none_iff.mp found)
  | some i => simp only [release, List.erase_eq_eraseIdx, found]

theorem release_of_notMem {pool : Pool T} {obj : T} (absent : obj ∉ pool.inUse) :
    pool.release obj = pool := by
  rw [release, List.idxOf?_eq_none_iff.mpr absent]

/-- A pool and its holders: the objects that are acquired and not yet released. -/
structure Held (T : Type) where
  pool : Pool T
  outstanding : List T

/-- A call. -/
inductive Call (T : Type) where
  | acquire
  | release (obj : T)

/-- What a call does.  A failed `acquire` changes nothing. -/
def Held.call (held : Held T) : Call T → Held T
  | .acquire =>
      match held.pool.acquire with
      | .ok (obj, pool) => ⟨pool, held.outstanding ++ [obj]⟩
      | .error _ => held
  | .release obj => ⟨held.pool.release obj, held.outstanding.erase obj⟩

/-- The objects of a pool are conserved. -/
structure Held.Conserves (held : Held T) : Prop where
  nodup : held.outstanding.Nodup
  bounded : held.outstanding.length ≤ held.pool.maxSize
  exhausted : ∀ e, held.pool.acquire = .error e → held.outstanding.length = held.pool.maxSize
  available : ∀ obj ∈ held.outstanding, obj ∈ (held.pool.release obj).available

/-- A new pool. -/
def Held.start (maxSize : Int) (factory : Nat → T) : Held T :=
  ⟨newWithFactory maxSize factory, []⟩

/-- The call takes no released object. -/
def Held.Fresh (held : Held T) : Call T → Prop
  | .acquire => held.pool.available = []
  | .release _ => True

/-- The holders are those that the pool knows. -/
structure Held.Listed (maxSize : Int) (factory : Nat → T) (held : Held T) : Prop where
  known : held.outstanding = held.pool.inUse
  nodup : held.pool.inUse.Nodup
  isMade : ∀ obj ∈ held.pool.inUse, ∃ i < held.pool.made, factory i = obj
  bounded : held.pool.inUse.length ≤ maxSize
  sameSize : held.pool.maxSize = maxSize
  sameFactory : held.pool.factory = factory

variable {maxSize : Int} {factory : Nat → T} {held : Held T}

theorem Held.Listed.conserves (listed : Listed maxSize factory held) : held.Conserves where
  nodup := by
    rw [listed.known]
    exact listed.nodup
  bounded := by
    rw [listed.known, listed.sameSize]
    exact listed.bounded
  exhausted e fails := by
    rw [acquire] at fails
    split at fails
    · cases fails
    · split at fails
      · cases fails
      · next full =>
          have bounded := listed.bounded
          rw [listed.sameSize] at full
          rw [listed.known, listed.sameSize]
          omega
  available obj member := by
    rw [listed.known] at member
    simp [release_of_mem member]

theorem Held.Listed.call (injective : Function.Injective factory)
    (listed : Listed maxSize factory held) {call : Call T} (fresh : held.Fresh call) :
    Listed maxSize factory (held.call call) := by
  rcases listed with ⟨known, nodup, isMade, bounded, rfl, rfl⟩
  cases call with
  | acquire =>
      by_cases room : held.pool.inUse.length < held.pool.maxSize
      · -- a new object differs from all that were made before
        have isNew : held.pool.factory held.pool.made ∉ held.pool.inUse := by
          intro member
          rcases isMade _ member with ⟨i, before, same⟩
          exact Nat.ne_of_lt before (injective same)
        simp only [Held.call, acquire_of_nil fresh, if_pos room, known]
        refine ⟨rfl, ?_, ?_, ?_, rfl, rfl⟩
        · exact List.nodup_append_comm.mp (nodup.cons isNew)
        · intro obj member
          rcases List.mem_append.mp member with old | new
          · rcases isMade obj old with ⟨i, before, same⟩
            exact ⟨i, Nat.lt_succ_of_lt before, same⟩
          · exact ⟨_, Nat.lt_succ_self _, (List.mem_singleton.mp new).symm⟩
        · simpa using Int.add_one_le_of_lt room
      · simp only [Held.call, acquire_of_nil fresh, if_neg room]
        exact ⟨known, nodup, isMade, bounded, rfl, rfl⟩
  | release obj =>
      rw [Held.call, known]
      by_cases member : obj ∈ held.pool.inUse
      · rw [release_of_mem member]
        refine ⟨rfl, nodup.erase obj, ?_, ?_, rfl, rfl⟩
        · intro other kept
          exact isMade other (List.mem_of_mem_erase kept)
        · have shorter := (List.erase_sublist (a := obj) (l := held.pool.inUse)).length_le
          exact Int.le_trans (Int.ofNat_le.mpr shorter) bounded
      · rw [release_of_notMem member, List.erase_of_not_mem member]
        exact ⟨rfl, nodup, isMade, bounded, rfl, rfl⟩

/-- A pool conserves its objects as long as nothing that was released is taken again. -/
theorem conserves_of_fresh (nonneg : 0 ≤ maxSize) (injective : Function.Injective factory)
    (reached : Runs.Reached (· = Held.start maxSize factory)
      (fun held call held' => held.Fresh call ∧ held' = held.call call) held) :
    held.Conserves := by
  have listed : Held.Listed maxSize factory held := by
    apply reached.invariant
    · rintro _ rfl
      exact ⟨rfl, List.nodup_nil, by simp [Held.start, newWithFactory], nonneg, rfl, rfl⟩
    · rintro held call _ listed ⟨fresh, rfl⟩
      exact listed.call injective fresh
  exact listed.conserves

/-- One object is acquired, and then there is no other. -/
theorem conserves_of_fresh_one :
    (Held.call (Held.start 1 (id : Nat → Nat)) .acquire).Conserves :=
  have fresh : (Held.start 1 (id : Nat → Nat)).Fresh .acquire := rfl
  conserves_of_fresh (by decide) Function.injective_id (.step (.start rfl) ⟨fresh, rfl⟩)

/-- An object that is acquired again does not count. -/
theorem not_conserves :
    ¬ ∀ (maxSize : Int) (factory : Nat → Nat), 0 ≤ maxSize → Function.Injective factory →
      ∀ held, Runs.Reached (· = Held.start maxSize factory)
        (fun held call held' => held' = held.call call) held → held.Conserves := by
  intro conserved
  have acts : ∀ {held : Held Nat} (call : Call Nat), held.call call = held.call call := fun _ => rfl
  have conserves := conserved 1 id (by decide) Function.injective_id _
    (.step (.step (.step (.step (.start rfl) (acts .acquire)) (acts (.release 0))) (acts .acquire))
      (acts .acquire))
  exact absurd conserves.bounded (by decide)

end Pool

end Tinox.Core
