import Tinox.Codegen.Names
import Tinox.Data.Entries
import Mathlib.Order.Hom.Basic
import Mathlib.Data.Option.Basic
import Mathlib.Data.Nat.Digits.Defs

/-!
# Variables and their stack slots

The generator keeps two flat maps from names to slots and the set of the
parameters.  Declarations overwrite the maps, and hardly anything restores
them.  This file proves when the slot that the maps yield is the slot of the
declaration that lexical scoping designates.
-/

namespace Tinox.Codegen.Slots

open Tinox.Syntax (Ident)
open Tinox.Codegen.Names

/-- Where generated code finds a variable. -/
inductive Loc where
  /-- The operand `%name`, the value of a parameter. -/
  | value (name : String)
  /-- The stack slot `%name`. -/
  | slot (name : String)
  deriving DecidableEq, Repr

/-- The part of `GenCtx` that concerns names, and what was emitted: the slots
in order of allocation, and the places of the accesses, the last one first.  An
access for which no code is emitted has no place. -/
structure GenCtx where
  params : List Ident
  locals : Ident → Bool
  localSlots : Ident → Option String
  slots : List String
  accesses : List (Option Loc)

/-- The slot name built from a name and the value of `temp_count`. -/
def slotName (name : Ident) (count : Nat) : String :=
  name ++ "_" ++ toString count

namespace GenCtx

/-- The slot of a name, by default spelled like the name. -/
def slotOf (ctx : GenCtx) (name : Ident) : String :=
  (ctx.localSlots name).getD name

/-- The place of an access. -/
def locate (ctx : GenCtx) : AccessKind → Ident → Option Loc
  | .read, name =>
      if name ∈ ctx.params then some (.value name)
      else if ctx.locals name then some (.slot (ctx.slotOf name))
      else some (.value name)
  | .element, name | .update, name =>
      if ctx.locals name then some (.slot (ctx.slotOf name)) else none
  | .write, name => some (.slot (ctx.slotOf name))

/-- The context at entry of a function. -/
def entry (params : List Ident) : GenCtx :=
  { params, locals := fun name => decide (name ∈ params), localSlots := fun _ => none,
    slots := [], accesses := [] }

end GenCtx

/-- The generator's interpretation of a walk.  `temp_count` only grows, so the
slots of a function get the numbers of an increasing sequence. -/
def generator (number : ℕ ↪o ℕ) : Interp GenCtx Unit where
  snapshot _ := ()
  resume _ ctx := ctx
  reserve name ctx :=
    let slot := slotName name (number ctx.slots.length)
    (ctx.slots.length,
      { ctx with
        localSlots := Function.update ctx.localSlots name (some slot)
        slots := ctx.slots ++ [slot] })
  bind name _ ctx := { ctx with locals := Function.update ctx.locals name true }
  forget name ctx :=
    { ctx with
      locals := Function.update ctx.locals name false
      localSlots := Function.update ctx.localSlots name none }
  access kind name ctx := { ctx with accesses := ctx.locate kind name :: ctx.accesses }

/-- A declaration: a parameter, or the `index`-th local declaration reached. -/
inductive Decl where
  | param (name : Ident)
  | local_ (index : Nat)
  deriving DecidableEq, Repr

/-- What a walk passes, as far as scoping is concerned. -/
inductive Event where
  | declare (name : Ident) (index : Nat)
  | forget (name : Ident)
  | access (kind : AccessKind) (name : Ident) (designated : Option Decl)
  deriving DecidableEq, Repr

/-- The declarations in scope, innermost first, and the events passed so far,
the last one first. -/
structure Scopes where
  env : List (Ident × Decl)
  declared : Nat
  events : List Event

/-- The scopes at entry of a function. -/
def Scopes.entry (params : List Ident) : Scopes :=
  { env := params.map fun name => (name, .param name), declared := 0, events := [] }

/-- Lexical scoping: a name is in scope from the end of its declaration to the
end of the block, loop, clause or arm that declares it. -/
def lexical : Interp Scopes (List (Ident × Decl)) where
  snapshot s := s.env
  resume env s := { s with env }
  reserve name s :=
    (s.declared,
      { s with declared := s.declared + 1, events := .declare name s.declared :: s.events })
  bind name index s := { s with env := (name, .local_ index) :: s.env }
  forget name s := { s with events := .forget name :: s.events }
  access kind name s := { s with events := .access kind name (s.env.lookup name) :: s.events }

/-- The place that belongs to a declaration. -/
def Decl.place (slots : List String) : Decl → Option Loc
  | .param name => some (.value name)
  | .local_ index => slots[index]?.map .slot

/-- An access is right when its place is that of the designated declaration. -/
def RightPlace (slots : List String) (place : Option Loc) : Option Decl → Prop
  | none => True
  | some decl => place = decl.place slots

/-- The declarations designated for the accesses among the events. -/
def designations (events : List Event) : List (Option Decl) :=
  events.filterMap fun
    | .access _ _ designated => some designated
    | _ => none

/-- Every access goes to the place of the declaration that scoping designates. -/
def FollowsScoping (ctx : GenCtx) (scopes : Scopes) : Prop :=
  List.Forall₂ (RightPlace ctx.slots) ctx.accesses (designations scopes.events)

/-- The local declaration of a name that was passed last, unless an arm that
binds the name has ended since. -/
def lastDeclared (name : Ident) : List Event → Option Nat
  | [] => none
  | .declare other index :: earlier => if other = name then some index else lastDeclared name earlier
  | .forget other :: earlier => if other = name then none else lastDeclared name earlier
  | .access .. :: earlier => lastDeclared name earlier

/-- An access finds its declaration undisturbed: a parameter is only read, and
a local declaration is the last one of its name that was passed and, where it
is read, redeclares no parameter. -/
def UndisturbedAccess (params : List Ident) (earlier : List Event) (kind : AccessKind)
    (name : Ident) : Option Decl → Prop
  | none => True
  | some (.param _) => kind = .read
  | some (.local_ index) =>
      lastDeclared name earlier = some index ∧ (kind = .read → name ∉ params)

/-- Every access of a walk finds its declaration undisturbed. -/
def Undisturbed (params : List Ident) : List Event → Prop
  | [] => True
  | .access kind name designated :: earlier =>
      UndisturbedAccess params earlier kind name designated ∧ Undisturbed params earlier
  | _ :: earlier => Undisturbed params earlier

theorem underscore_notMem_digits (n : ℕ) : '_' ∉ Nat.toDigits 10 n := by
  intro mem
  have digit := Nat.isDigit_of_mem_toDigits (by omega) (by omega) mem
  simp at digit

/-- The digits of a slot name, last one first: what stands behind the last
underscore. -/
theorem takeWhile_slotName (name : Ident) (n : ℕ) :
    (slotName name n).toList.reverse.takeWhile (· != '_') = (Nat.toDigits 10 n).reverse := by
  have digits : ∀ c ∈ (Nat.toDigits 10 n).reverse, (c != '_') = true := by
    intro c mem
    rw [List.mem_reverse] at mem
    rw [bne_iff_ne]
    rintro rfl
    exact underscore_notMem_digits n mem
  have chars : (slotName name n).toList.reverse =
      (Nat.toDigits 10 n).reverse ++ '_' :: name.toList.reverse := by
    simp [slotName]
  rw [chars, List.takeWhile_append_of_pos digits]
  simp

theorem slotName_count {first second : Ident} {m n : ℕ}
    (same : slotName first m = slotName second n) : m = n := by
  have chars := congrArg (fun s => (String.toList s).reverse.takeWhile (· != '_')) same
  simp only [takeWhile_slotName, List.reverse_inj] at chars
  rw [← Nat.ofDigitChars_ten_toDigits (n := m), chars, Nat.ofDigitChars_ten_toDigits]

theorem slotName_ne (name : Ident) (n : ℕ) : slotName name n ≠ name := by
  intro same
  have length := congrArg String.length same
  have underscore : "_".length = 1 := rfl
  simp only [slotName, String.length_append, underscore] at length
  omega

section Simulation

variable (number : ℕ ↪o ℕ) (params : List Ident)

/-- A declaration under its name, as seen by the generator's maps. -/
def DeclValid (ctx : GenCtx) (scopes : Scopes) (name : Ident) : Decl → Prop
  | .param param => param = name ∧ name ∈ params
  | .local_ index =>
      ctx.slots[index]? = some (slotName name (number index)) ∧
        (lastDeclared name scopes.events = some index → ctx.locals name = true)

/-- Every declaration of a scope is valid. -/
def EnvValid (env : List (Ident × Decl)) (ctx : GenCtx) (scopes : Scopes) : Prop :=
  ∀ entry ∈ env, DeclValid number params ctx scopes entry.1 entry.2

/-- What the generator's maps and lexical scoping have in common at any point
of a walk. -/
structure MapsAgree (ctx : GenCtx) (scopes : Scopes) : Prop where
  sameParams : ctx.params = params
  count : ctx.slots.length = scopes.declared
  numbered : ∀ index slot, ctx.slots[index]? = some slot →
    ∃ name, slot = slotName name (number index)
  current : ∀ name, ctx.localSlots name =
    (lastDeclared name scopes.events).map fun index => slotName name (number index)
  last : ∀ name index, lastDeclared name scopes.events = some index →
    ctx.slots[index]? = some (slotName name (number index))
  scope : EnvValid number params scopes.env ctx scopes
  designated : ∀ decl ∈ designations scopes.events, ∀ index, decl = some (.local_ index) →
    index < ctx.slots.length
  follows : FollowsScoping ctx scopes ↔ Undisturbed params scopes.events

variable {number params} {ctx : GenCtx} {scopes : Scopes}

/-- The slot that the maps yield is that of a declaration exactly if it was the
last one of the name. -/
theorem MapsAgree.slotOf_iff (agree : MapsAgree number params ctx scopes) (name : Ident)
    (index : ℕ) :
    ctx.slotOf name = slotName name (number index) ↔ lastDeclared name scopes.events = some index := by
  rw [GenCtx.slotOf, agree.current]
  cases lastDeclared name scopes.events with
  | none => simp [(slotName_ne name (number index)).symm]
  | some last =>
      simp only [Option.map_some, Option.getD_some, Option.some.injEq]
      constructor
      · exact fun same => number.injective (slotName_count same)
      · rintro rfl
        rfl

/-- An access goes to the place of the designated declaration exactly if it
finds it undisturbed. -/
theorem MapsAgree.rightPlace_iff (agree : MapsAgree number params ctx scopes) (kind : AccessKind)
    (name : Ident) {decl : Decl} (valid : DeclValid number params ctx scopes name decl) :
    RightPlace ctx.slots (ctx.locate kind name) (some decl) ↔
      UndisturbedAccess params scopes.events kind name (some decl) := by
  cases decl with
  | param param =>
      rcases valid with ⟨rfl, isParam⟩
      have isParam' := agree.sameParams.symm ▸ isParam
      cases kind <;> simp [RightPlace, UndisturbedAccess, Decl.place, GenCtx.locate, isParam']
  | local_ index =>
      rcases valid with ⟨slotAt, known⟩
      have slotIff := agree.slotOf_iff name index
      simp only [RightPlace, UndisturbedAccess, Decl.place, slotAt, Option.map_some]
      have inLocals : ctx.locals name = false → lastDeclared name scopes.events ≠ some index := by
        intro unknown last
        rw [known last] at unknown
        cases unknown
      cases kind with
      | read =>
          by_cases isParam : name ∈ params
          · simp [GenCtx.locate, agree.sameParams, isParam]
          · cases known' : ctx.locals name <;>
              simp_all [GenCtx.locate, agree.sameParams]
      | element | update => cases known' : ctx.locals name <;> simp_all [GenCtx.locate]
      | write => simpa [GenCtx.locate] using slotIff

theorem MapsAgree.follows_append (agree : MapsAgree number params ctx scopes) (slot : String) :
    List.Forall₂ (RightPlace (ctx.slots ++ [slot])) ctx.accesses (designations scopes.events) ↔
      FollowsScoping ctx scopes := by
  have same : ∀ place, ∀ decl ∈ designations scopes.events,
      RightPlace (ctx.slots ++ [slot]) place decl ↔ RightPlace ctx.slots place decl := by
    intro place decl mem
    cases decl with
    | none => exact Iff.rfl
    | some decl =>
        cases decl with
        | param name => exact Iff.rfl
        | local_ index =>
            have bound := agree.designated _ mem index rfl
            simp only [RightPlace, Decl.place, List.getElem?_append_left bound]
  unfold FollowsScoping
  generalize designations scopes.events = designated at same
  generalize ctx.accesses = places
  induction designated generalizing places with
  | nil => cases places <;> simp
  | cons decl designated ih =>
      cases places with
      | nil => simp
      | cons place places =>
          have rest := ih (fun place decl mem => same place decl (List.mem_cons_of_mem _ mem)) places
          rw [List.forall₂_cons, List.forall₂_cons]
          exact and_congr (same place decl List.mem_cons_self) rest

/-- Entries of a scope stay valid while slots are only added and the last
declarations of names either stay or become younger ones. -/
theorem DeclValid.persists {ctx' : GenCtx} {scopes' : Scopes} {name : Ident} {decl : Decl}
    (valid : DeclValid number params ctx scopes name decl) (slots : ctx.slots <+: ctx'.slots)
    (kept : ∀ index < ctx.slots.length, lastDeclared name scopes'.events = some index →
      ctx'.locals name = true ∨
        lastDeclared name scopes.events = some index ∧ ctx'.locals name = ctx.locals name) :
    DeclValid number params ctx' scopes' name decl := by
  cases decl with
  | param param => exact valid
  | local_ index =>
      rcases valid with ⟨slotAt, known⟩
      have bound : index < ctx.slots.length := (List.getElem?_eq_some_iff.mp slotAt).1
      refine ⟨?_, fun last => ?_⟩
      · rcases slots with ⟨added, slotsEq⟩
        rw [← slotsEq, List.getElem?_append_left bound, slotAt]
      · rcases kept index bound last with known' | ⟨lastBefore, same⟩
        · exact known'
        · rw [same]
          exact known lastBefore

theorem MapsAgree.reserve (agree : MapsAgree number params ctx scopes) (name : Ident) :
    ((generator number).reserve name ctx).1 = (lexical.reserve name scopes).1 ∧
      MapsAgree number params ((generator number).reserve name ctx).2 (lexical.reserve name scopes).2 ∧
      (∀ env, EnvValid number params env ctx scopes →
        EnvValid number params env ((generator number).reserve name ctx).2
          (lexical.reserve name scopes).2) := by
  have envs : ∀ env, EnvValid number params env ctx scopes →
      EnvValid number params env ((generator number).reserve name ctx).2
        (lexical.reserve name scopes).2 := by
    intro env valid entry mem
    refine (valid entry mem).persists (List.prefix_append _ _) fun index bound last => .inr ⟨?_, rfl⟩
    simp only [lexical, lastDeclared] at last
    split at last
    · -- The new declaration has a higher number than any declaration in scope.
      rw [Option.some.injEq, ← agree.count] at last
      omega
    · exact last
  refine ⟨agree.count, ?_, envs⟩
  exact {
    sameParams := agree.sameParams
    count := by simp [generator, lexical, agree.count]
    numbered := by
      intro index slot slotAt
      simp only [generator, List.getElem?_append] at slotAt
      split at slotAt
      · exact agree.numbered index slot slotAt
      · have last : index = ctx.slots.length := by
          have := (List.getElem?_eq_some_iff.mp slotAt).1
          simp at this
          omega
        subst last
        exact ⟨name, by simpa using slotAt.symm⟩
    current := by
      intro other
      by_cases same : other = name
      · subst same
        simp [generator, lexical, lastDeclared, agree.count]
      · simp [generator, lexical, lastDeclared, Function.update_of_ne same, Ne.symm same,
          agree.current other]
    last := by
      intro other index last
      simp only [lexical, lastDeclared] at last
      split at last
      · rename_i same
        subst same
        rw [Option.some.injEq, ← agree.count] at last
        subst last
        simp [generator]
      · have slotAt := agree.last other index last
        have bound := (List.getElem?_eq_some_iff.mp slotAt).1
        simp only [generator, List.getElem?_append_left bound, slotAt]
    scope := envs scopes.env agree.scope
    designated := by
      intro decl mem index isLocal
      have := agree.designated decl mem index isLocal
      simp only [generator, List.length_append]
      omega
    follows := (agree.follows_append _).trans agree.follows }

theorem MapsAgree.bind (agree : MapsAgree number params ctx scopes) {name : Ident} {index : ℕ}
    (slotAt : ctx.slots[index]? = some (slotName name (number index))) :
    MapsAgree number params ((generator number).bind name index ctx)
        (lexical.bind name index scopes) ∧
      ∀ env, EnvValid number params env ctx scopes →
        EnvValid number params env ((generator number).bind name index ctx)
          (lexical.bind name index scopes) := by
  have envs : ∀ env, EnvValid number params env ctx scopes →
      EnvValid number params env ((generator number).bind name index ctx)
        (lexical.bind name index scopes) := by
    intro env valid entry mem
    refine (valid entry mem).persists List.prefix_rfl fun _ _ last => ?_
    by_cases same : entry.1 = name
    · left
      simp [generator, same]
    · exact .inr ⟨last, by simp [generator, Function.update_of_ne same]⟩
  refine ⟨{ agree with scope := ?_ }, envs⟩
  intro entry mem
  rcases List.mem_cons.mp mem with rfl | mem
  · exact ⟨slotAt, fun _ => by simp [generator]⟩
  · exact envs scopes.env agree.scope entry mem

theorem MapsAgree.forget (agree : MapsAgree number params ctx scopes) (name : Ident) :
    MapsAgree number params ((generator number).forget name ctx) (lexical.forget name scopes) ∧
      ∀ env, EnvValid number params env ctx scopes →
        EnvValid number params env ((generator number).forget name ctx)
          (lexical.forget name scopes) := by
  have envs : ∀ env, EnvValid number params env ctx scopes →
      EnvValid number params env ((generator number).forget name ctx)
        (lexical.forget name scopes) := by
    intro env valid entry mem
    refine (valid entry mem).persists List.prefix_rfl fun _ _ last => .inr ?_
    simp only [lexical, lastDeclared] at last
    split at last
    · cases last
    · rename_i differs
      exact ⟨last, by simp [generator, Function.update_of_ne (Ne.symm differs)]⟩
  refine ⟨{ agree with current := ?_, last := ?_, scope := envs scopes.env agree.scope }, envs⟩
  · intro other
    by_cases same : other = name
    · subst same
      simp [generator, lexical, lastDeclared]
    · simp [generator, lexical, lastDeclared, Function.update_of_ne same, Ne.symm same,
        agree.current other]
  · intro other index last
    simp only [lexical, lastDeclared] at last
    split at last
    · cases last
    · exact agree.last other index last

theorem MapsAgree.access (agree : MapsAgree number params ctx scopes) (kind : AccessKind)
    (name : Ident) :
    MapsAgree number params ((generator number).access kind name ctx)
        (lexical.access kind name scopes) ∧
      ∀ env, EnvValid number params env ctx scopes →
        EnvValid number params env ((generator number).access kind name ctx)
          (lexical.access kind name scopes) := by
  have envs : ∀ env, EnvValid number params env ctx scopes →
      EnvValid number params env ((generator number).access kind name ctx)
        (lexical.access kind name scopes) :=
    fun env valid entry mem =>
      (valid entry mem).persists List.prefix_rfl fun _ _ last => .inr ⟨last, rfl⟩
  refine ⟨{ agree with
    scope := envs scopes.env agree.scope, designated := ?_, follows := ?_ }, envs⟩
  · intro decl mem index isLocal
    rcases List.mem_cons.mp mem with rfl | mem
    · have valid := agree.scope _ (Entries.mem_of_lookup isLocal)
      exact (List.getElem?_eq_some_iff.mp valid.1).1
    · exact agree.designated decl mem index isLocal
  · refine List.forall₂_cons.trans (and_congr ?_ agree.follows)
    cases found : scopes.env.lookup name with
    | none => exact Iff.rfl
    | some decl => exact agree.rightPlace_iff kind name (agree.scope _ (Entries.mem_of_lookup found))

variable (number params)

/-- The generator's maps simulate lexical scoping. -/
def mapsSimulation : Simulation (generator number) lexical where
  Related := MapsAgree number params
  InScope _ env := EnvValid number params env
  Reserved name index ctx _ := ctx.slots[index]? = some (slotName name (number index))
  snapshot agree := agree.scope
  resume agree valid := ⟨{ agree with scope := valid }, fun _ _ h => h, fun _ _ h => h⟩
  reserve := by
    intro ctx scopes name agree
    rcases agree.reserve name with ⟨same, reserved, envs⟩
    refine ⟨same, reserved, ⟨fun _ => envs, fun other index slotAt => ?_⟩, by simp [generator]⟩
    have bound := (List.getElem?_eq_some_iff.mp slotAt).1
    simp only [generator, List.getElem?_append_left bound, slotAt]
  bind := by
    intro ctx scopes name index agree slotAt
    rcases agree.bind slotAt with ⟨bound, envs⟩
    exact ⟨bound, fun _ => envs, fun _ _ h => h⟩
  forget := by
    intro ctx scopes name agree
    rcases agree.forget name with ⟨forgotten, envs⟩
    exact ⟨forgotten, fun _ => envs, fun _ _ h => h⟩
  access := by
    intro ctx scopes kind name agree
    rcases agree.access kind name with ⟨accessed, envs⟩
    exact ⟨accessed, fun _ => envs, fun _ _ h => h⟩

theorem mapsAgree_entry : MapsAgree number params (GenCtx.entry params) (Scopes.entry params) where
  sameParams := rfl
  count := rfl
  numbered := by simp [GenCtx.entry]
  current := by simp [GenCtx.entry, Scopes.entry, lastDeclared]
  last := by simp [Scopes.entry, lastDeclared]
  scope := by
    intro entry mem
    rcases List.mem_map.mp mem with ⟨name, isParam, rfl⟩
    exact ⟨rfl, isParam⟩
  designated := by simp [Scopes.entry, designations]
  follows := by simp [FollowsScoping, GenCtx.entry, Scopes.entry, designations, Undisturbed]

end Simulation

/-- The context of the generator after the body of a function. -/
def generated (number : ℕ ↪o ℕ) (checks : Nat → Bool) (fuel : Nat) (params : List Ident)
    (body : Stmt) : Option GenCtx :=
  walkBody (generator number) checks fuel body (GenCtx.entry params)

/-- What lexical scoping says about the same walk. -/
def designated (checks : Nat → Bool) (fuel : Nat) (params : List Ident) (body : Stmt) :
    Option Scopes :=
  walkBody lexical checks fuel body (Scopes.entry params)

theorem generated_agrees (number : ℕ ↪o ℕ) (checks : Nat → Bool) (fuel : Nat)
    (params : List Ident) (body : Stmt) :
    Option.Rel (MapsAgree number params) (generated number checks fuel params body)
      (designated checks fuel params body) := by
  have agrees := (Simulation.agrees_walk (mapsSimulation number params) checks fuel).2 body
  have entry := mapsAgree_entry number params
  have walked := agrees
    { names := GenCtx.entry params, deferStack := [], inDeferExec := false, errorCatch := none,
      points := 0 }
    { names := Scopes.entry params, deferStack := [], inDeferExec := false, errorCatch := none,
      points := 0 }
    { names := entry, defers := .nil, inDeferExec := rfl, errorCatch := rfl, points := rfl }
  unfold generated designated walkBody
  generalize walkStmt (generator number) checks fuel body _ = ctx at walked ⊢
  generalize walkStmt lexical checks fuel body _ = scopes at walked ⊢
  cases walked with
  | none => exact .none
  | some step => exact .some step.1.names

theorem MapsAgree.nodup {number : ℕ ↪o ℕ} {params : List Ident} {ctx : GenCtx} {scopes : Scopes}
    (agree : MapsAgree number params ctx scopes) : ctx.slots.Nodup := by
  refine List.pairwise_iff_getElem.mpr fun first second firstBound secondBound less same => ?_
  rcases agree.numbered first _ (List.getElem?_eq_getElem firstBound) with ⟨firstName, firstEq⟩
  rcases agree.numbered second _ (List.getElem?_eq_getElem secondBound) with ⟨secondName, secondEq⟩
  have sameNumber := slotName_count (firstEq.symm.trans (same.trans secondEq))
  exact absurd (number.injective sameNumber) (by omega)

/-- `{ var x = 7; if (true) { for x in 0..3 { } } return x; }` -/
def loopShadows : Stmt :=
  .block [
    .varStmt "x" (some (.operation [])),
    .ifStmt (.operation []) (.block [.forStmt "x" (.operation []) (.block [])]) none,
    .returnStmt (some (.ident "x"))]

end Tinox.Codegen.Slots
