import Tinox.Check.Expansion
import Mathlib.Logic.Relation
import Mathlib.Data.List.Nodup
import Mathlib.Data.List.Pairwise
import Mathlib.Data.List.Induction

/-!
# Interface inheritance

What the method tables of interfaces should be: an interface has its own
methods and those of all interfaces it extends, however far away.  The pass
that builds the tables only looks at the direct parents, which may have been
expanded already or not.  The tables are right in every order, and the same in
all orders, if and only if no interface depends on the expansion of its parents.
-/

namespace Tinox.Check

open Tinox.Syntax

namespace Checker

/-- An interface and the interfaces it extends, directly or not. -/
def Family (s : Checker) : String → String → Prop :=
  Relation.ReflTransGen fun name parent => parent ∈ s.parents name

/-- An interface or one that it extends has a method of this name. -/
def Provides (s : Checker) (name method : String) : Prop :=
  ∃ member, s.Family name member ∧ method ∈ (s.own member).names

/-- Two interfaces declare a method with signatures that do not match: neither
matches the other, or the first extends the second and does not match it. -/
def Clash (s : Checker) (first second method : String) : Prop :=
  first ≠ second ∧ ∃ a b, (method, a) ∈ s.own first ∧ (method, b) ∈ s.own second ∧
    signaturesMatch s.interfaceImplementations a b = false ∧
    (s.Family first second ∨ signaturesMatch s.interfaceImplementations b a = false)

/-- An interface declares a method that does not match the one of a direct
parent. -/
def DirectClash (s : Checker) (name parent method : String) : Prop :=
  parent ∈ s.parents name ∧ ∃ a b, (method, a) ∈ s.own name ∧ (method, b) ∈ s.own parent ∧
    signaturesMatch s.interfaceImplementations a b = false

end Checker

/-- The tables of a state are closed over the declarations of a file: every
method name comes once, the interface's own methods are there, and the others
are those of the interfaces it extends. -/
structure Closed (base s : Checker) : Prop where
  declared : ∀ name, (s.interfaces name).isSome ↔ (base.interfaces name).isSome
  once : ∀ name, (s.own name).names.Nodup
  own : ∀ name, ∀ entry ∈ base.own name, entry ∈ s.own name
  sound : ∀ name, ∀ entry ∈ s.own name, ∃ member, base.Family name member ∧ entry ∈ base.own member
  complete : ∀ name method, base.Provides name method → method ∈ (s.own name).names

/-- Conflicting signatures in the family of an interface are reported. -/
def Reported (base s : Checker) : Prop :=
  ∀ name first second method, base.Family name first → base.Family name second →
    base.Clash first second method →
    ∃ member parent, base.Family name member ∧
      TypeError.interfaceMethodConflict member parent method ∈ s.errors

/-- Interface inheritance is closed and independent of the orders in which hash
maps are iterated. -/
structure OrderFree (functions : String → Option Signature) (rest : Rest) (file : SourceFile) :
    Prop where
  closed : ∀ orders : Orders file,
    Closed (registerAll functions file) (registerDeclarations functions file orders)
  reported : ∀ orders : Orders file,
    Reported (registerAll functions file) (registerDeclarations functions file orders)
  sameTables : ∀ first second : Orders file,
    (registerDeclarations functions file first).interfaces =
        (registerDeclarations functions file second).interfaces ∧
      (registerDeclarations functions file first).functions =
        (registerDeclarations functions file second).functions
  sameVerdict : ∀ first second : Orders file,
    verdict rest file (registerDeclarations functions file first) =
      verdict rest file (registerDeclarations functions file second)

/-- No interface depends on the expansion of its parents. -/
structure Shallow (base : Checker) : Prop where
  /-- No interface declares a method twice. -/
  distinct : ∀ name, (base.own name).names.Nodup
  /-- A method of the family is declared by the interface or a direct parent. -/
  near : ∀ name method, base.Provides name method →
    method ∈ (base.own name).names ∨
      ∃ parent ∈ base.parents name, method ∈ (base.own parent).names
  /-- A method that the interface does not declare comes from one parent. -/
  single : ∀ name, (base.parents name).Pairwise fun first second =>
    first ≠ name → second ≠ name → ∀ method, method ∉ (base.own name).names →
      base.Provides first method → ¬ base.Provides second method
  /-- Conflicts in the family show between an interface and a direct parent. -/
  shown : ∀ name first second method, base.Family name first → base.Family name second →
    base.Clash first second method →
    ∃ member parent, base.Family name member ∧ base.DirectClash member parent method
  /-- No two interfaces have methods of the same symbol. -/
  symbols : ∀ first second method other, first ≠ second →
    base.Provides first method → base.Provides second other →
    methodSymbol first method ≠ methodSymbol second other

section Families

variable {base : Checker} {name parent member : String}

theorem family_refl (name : String) : base.Family name name :=
  Relation.ReflTransGen.refl

theorem family_parent (extends_ : parent ∈ base.parents name) : base.Family name parent :=
  Relation.ReflTransGen.single extends_

theorem family_trans (first : base.Family name parent) (second : base.Family parent member) :
    base.Family name member :=
  Relation.ReflTransGen.trans first second

theorem provides_own {method : String} (declares : method ∈ (base.own name).names) :
    base.Provides name method :=
  ⟨name, family_refl name, declares⟩

theorem provides_parent {method : String} (extends_ : parent ∈ base.parents name)
    (provides : base.Provides parent method) : base.Provides name method := by
  rcases provides with ⟨member, family, declares⟩
  exact ⟨member, family_trans (family_parent extends_) family, declares⟩

theorem mem_names {own : Methods} {method : String} :
    method ∈ own.names ↔ ∃ signature, (method, signature) ∈ own := by
  rw [Methods.names, List.mem_map]
  constructor
  · rintro ⟨entry, member, rfl⟩
    exact ⟨entry.2, member⟩
  · rintro ⟨signature, member⟩
    exact ⟨_, member, rfl⟩

theorem isSome_of_parent (extends_ : parent ∈ base.parents name) :
    (base.interfaceExtends name).isSome := by
  rw [Checker.parents] at extends_
  cases h : base.interfaceExtends name with
  | none =>
      rw [h] at extends_
      cases extends_
  | some parents => rfl

end Families

/-- The table of an interface: its own methods and those that its parents
declare themselves. -/
def Checker.shallowTable (base : Checker) (name : String) : Methods :=
  base.own name ++ ((base.parents name).flatMap base.own).filter (fresh (base.own name))

/-- An order of a second pass over the tables of a file. -/
structure Visits (base : Checker) (order : List String) : Prop where
  once : order.Nodup
  declared : ∀ name ∈ order, (base.interfaces name).isSome

theorem Visits.left {base : Checker} {before after : List String}
    (visits : Visits base (before ++ after)) : Visits base before where
  once := (List.nodup_append.mp visits.once).1
  declared name member := visits.declared name (List.mem_append_left after member)

theorem passing_refl (base : Checker) : Passing base base :=
  ⟨rfl, rfl, rfl, fun _ => Iff.rfl⟩

theorem own_untouched {base : Checker} {order : List String} (visits : Visits base order)
    {name : String} (later : name ∉ order) :
    (order.foldl expandInterface base).own name = base.own name :=
  congrArg (fun table => Option.getD table [])
    (untouched_run (passing_refl base) visits.declared later)

theorem own_subset_run {base : Checker} {order : List String} (visits : Visits base order)
    (name : String) : base.own name <+: (order.foldl expandInterface base).own name := by
  by_cases member : name ∈ order
  · rcases List.append_of_mem member with ⟨before, after, rfl⟩
    rw [own_run visits.declared visits.once]
    exact List.prefix_append _ _
  · exact ⟨[], (List.append_nil _).trans (own_untouched visits member).symm⟩

section Errors

variable {base : Checker} {order : List String}

theorem sound_run (visits : Visits base order) (name : String) :
    ∀ entry ∈ (order.foldl expandInterface base).own name,
      ∃ member, base.Family name member ∧ entry ∈ base.own member := by
  induction order using List.reverseRecOn generalizing name with
  | nil =>
      intro entry member
      exact ⟨name, family_refl name, member⟩
  | append_singleton before last ih =>
      intro entry member
      by_cases due : name = last
      · subst due
        rw [own_run visits.declared visits.once, List.mem_append, List.mem_filter,
          List.mem_flatMap] at member
        rcases member with own | ⟨⟨parent, extends_, inherited⟩, _⟩
        · exact ⟨name, family_refl name, own⟩
        · rcases ih visits.left parent entry inherited with ⟨far, family, declares⟩
          exact ⟨far, family_trans (family_parent extends_) family, declares⟩
      · have lastDeclared : ∀ other ∈ [last], (base.interfaces other).isSome :=
          fun other member => visits.declared other (List.mem_append_right _ member)
        have unchanged := untouched_run (passing_run (passing_refl base) visits.left.declared)
          lastDeclared (fun same => due (List.mem_singleton.mp same))
        have sameOwn : ((before ++ [last]).foldl expandInterface base).own name =
            (before.foldl expandInterface base).own name := by
          rw [List.foldl_append]
          exact congrArg (fun table => Option.getD table []) unchanged
        rw [sameOwn] at member
        exact ih visits.left name entry member

theorem reported_of_directClash (visits : Visits base order) {name parent method : String}
    (distinct : (base.own name).names.Nodup) (due : name ∈ order)
    (clash : base.DirectClash name parent method) :
    ∃ found, TypeError.interfaceMethodConflict name found method ∈
      (order.foldl expandInterface base).errors := by
  rcases clash with ⟨extends_, a, b, own, inherited, differ⟩
  rcases List.append_of_mem due with ⟨before, after, rfl⟩
  have later : name ∉ before := fun member =>
    (List.nodup_append.mp visits.once).2.2 name member name List.mem_cons_self rfl
  have passing := passing_run (passing_refl base) visits.left.declared
  have sameOwn := own_untouched visits.left later
  have inherits : (method, b) ∈ ((before.foldl expandInterface base).parents name).flatMap
      (before.foldl expandInterface base).own := by
    rw [passing.parents, List.mem_flatMap]
    exact ⟨parent, extends_, (own_subset_run visits.left parent).subset inherited⟩
  have found := find?_eq_of_mem distinct own
  rw [← sameOwn] at found
  rw [← passing.implementations] at differ
  rcases conflict_expandInterface inherits found differ with ⟨reported, member⟩
  refine ⟨reported, ?_⟩
  rw [List.foldl_append, List.foldl_cons]
  exact errors_run member

theorem mem_errors_of_run (visits : Visits base order) (silent : base.errors = [])
    {e : TypeError} (member : e ∈ (order.foldl expandInterface base).errors) :
    (∃ name parent, parent ∈ base.parents name ∧ (base.interfaces parent).isNone ∧
        e = .undefinedInterface parent) ∨
      ∃ before name after parent method a b,
        order = before ++ name :: after ∧ e = .interfaceMethodConflict name parent method ∧
        (method, a) ∈ base.own name ∧
        (method, b) ∈ (base.parents name).flatMap (before.foldl expandInterface base).own ∧
        signaturesMatch base.interfaceImplementations a b = false := by
  rcases mem_errors_run member with old | ⟨before, name, after, rfl, absent, reported⟩
  · rw [silent] at old
    cases old
  · have later : name ∉ before := fun member =>
      (List.nodup_append.mp visits.once).2.2 name member name List.mem_cons_self rfl
    have passing := passing_run (passing_refl base) visits.left.declared
    rcases mem_errors_expandInterface reported with old |
      ⟨parent, extends_, missing, same⟩ | ⟨parent, method, same, conflict⟩
    · exact absurd old absent
    · rw [passing.parents] at extends_
      have missing' : (base.interfaces parent).isNone := by
        cases table : base.interfaces parent with
        | none => rfl
        | some methods =>
            have declared := (passing.declared parent).mpr (by rw [table]; rfl)
            rw [Option.isNone_iff_eq_none] at missing
            rw [missing] at declared
            cases declared
      exact .inl ⟨name, parent, extends_, missing', same⟩
    · rcases conflict with ⟨entry, a, b, inherits, found, differ⟩
      rw [own_untouched visits.left later] at found
      rw [passing.parents] at inherits
      rw [passing.implementations] at differ
      have named := List.find?_some found
      rw [beq_iff_eq] at named
      subst named
      exact .inr ⟨before, name, after, parent, entry, a, b, rfl, same,
        List.mem_of_find?_eq_some found, inherits, differ⟩

end Errors

namespace Shallow

variable {base : Checker}

theorem stale (shallow : Shallow base) {name parent : String} (extends_ : parent ∈ base.parents name)
    (other : parent ≠ name) :
    (base.shallowTable parent).filter (fresh (base.own name)) =
      (base.own parent).filter (fresh (base.own name)) := by
  rw [Checker.shallowTable, List.filter_append]
  suffices none : (((base.parents parent).flatMap base.own).filter
      (fresh (base.own parent))).filter (fresh (base.own name)) = [] by
    rw [none, List.append_nil]
  rw [List.filter_eq_nil_iff]
  intro entry inherits new
  rw [List.mem_filter, List.mem_flatMap, fresh_iff] at inherits
  rw [fresh_iff] at new
  rcases inherits with ⟨⟨far, extendsFar, declares⟩, absent⟩
  have named : entry.1 ∈ (base.own far).names := List.mem_map_of_mem declares
  have provides : base.Provides parent entry.1 :=
    provides_parent extendsFar (provides_own named)
  -- The interface must have the method from another parent, which is one too many.
  rcases shallow.near name entry.1 (provides_parent extends_ provides) with own | ⟨near, extendsNear, own⟩
  · exact new own
  · have apart : near ≠ parent := by
      rintro rfl
      exact absent own
    have notSelf : near ≠ name := by
      rintro rfl
      exact new own
    have symmetric : Std.Symm fun first second : String =>
        first ≠ name → second ≠ name → ∀ method, method ∉ (base.own name).names →
          base.Provides first method → ¬ base.Provides second method :=
      ⟨fun first second apart notSecond notFirst method new provides provides' =>
        apart notFirst notSecond method new provides' provides⟩
    exact (shallow.single name).forall extendsNear extends_ apart notSelf other entry.1 new
      (provides_own own) provides

theorem own_eq (shallow : Shallow base) {order : List String} (visits : Visits base order) :
    ∀ name ∈ order, (order.foldl expandInterface base).own name = base.shallowTable name := by
  induction order using List.reverseRecOn with
  | nil =>
      intro name member
      cases member
  | append_singleton before last ih =>
      have earlier := ih visits.left
      intro name member
      have apart := (List.nodup_append.mp visits.once).2.2
      rcases List.mem_append.mp member with early | late
      · have other : name ∉ [last] := fun same => apart name early name same rfl
        have lastDeclared : ∀ other ∈ [last], (base.interfaces other).isSome := fun other member =>
          visits.declared other (List.mem_append_right _ member)
        rw [List.foldl_append, Checker.own, untouched_run
          (passing_run (passing_refl base) visits.left.declared) lastDeclared other]
        exact earlier name early
      · have same := List.mem_singleton.mp late
        subst same
        rw [own_run visits.declared visits.once, Checker.shallowTable, List.filter_flatMap,
          List.filter_flatMap]
        congr 1
        apply List.flatMap_congr
        intro parent extends_
        by_cases processed : parent ∈ before
        · have other : parent ≠ name := by
            rintro rfl
            exact apart parent processed parent (List.mem_singleton_self parent) rfl
          rw [earlier parent processed]
          exact shallow.stale extends_ other
        · have unchanged := untouched_run (passing_refl base) visits.left.declared processed
          have sameOwn : (before.foldl expandInterface base).own parent = base.own parent :=
            congrArg (fun table => Option.getD table []) unchanged
          rw [sameOwn]

theorem names_nodup (shallow : Shallow base) (name : String) :
    (base.shallowTable name).names.Nodup := by
  rw [Checker.shallowTable, Methods.names, List.map_append, List.nodup_append]
  refine ⟨shallow.distinct name, ?_, ?_⟩
  · rw [List.filter_flatMap, List.map_flatMap, List.nodup_flatMap]
    constructor
    · intro parent _
      exact (shallow.distinct parent).sublist (List.filter_sublist.map _)
    · apply (shallow.single name).imp
      intro first second apart
      rw [Function.onFun_apply, List.disjoint_left]
      intro method inFirst inSecond
      rcases List.mem_map.mp inFirst with ⟨a, memberA, rfl⟩
      rcases List.mem_map.mp inSecond with ⟨b, memberB, same⟩
      rw [List.mem_filter, fresh_iff] at memberA memberB
      have notFirst : first ≠ name := by
        rintro rfl
        exact memberA.2 (List.mem_map_of_mem memberA.1)
      have notSecond : second ≠ name := by
        rintro rfl
        exact memberB.2 (List.mem_map_of_mem memberB.1)
      have provides : base.Provides second a.1 := by
        rw [← same]
        exact provides_own (List.mem_map_of_mem memberB.1)
      exact apart notFirst notSecond a.1 memberA.2
        (provides_own (List.mem_map_of_mem memberA.1)) provides
  · intro method own other inherited same
    subst same
    rcases List.mem_map.mp inherited with ⟨entry, member, rfl⟩
    rw [List.mem_filter, fresh_iff] at member
    exact member.2 own

theorem closed (shallow : Shallow base) {s : Checker}
    (declared : ∀ name, (s.interfaces name).isSome ↔ (base.interfaces name).isSome)
    (tables : ∀ name, s.own name = base.shallowTable name) : Closed base s where
  declared := declared
  once name := by
    rw [tables]
    exact shallow.names_nodup name
  own name entry member := by
    rw [tables]
    exact List.mem_append_left _ member
  sound name entry member := by
    rw [tables, Checker.shallowTable, List.mem_append, List.mem_filter, List.mem_flatMap] at member
    rcases member with own | ⟨⟨parent, extends_, inherited⟩, _⟩
    · exact ⟨name, family_refl name, own⟩
    · exact ⟨parent, family_parent extends_, inherited⟩
  complete name method provides := by
    rw [tables, Checker.shallowTable, Methods.names, List.map_append, List.mem_append]
    by_cases own : method ∈ (base.own name).names
    · exact .inl own
    · rcases shallow.near name method provides with absurdly | ⟨parent, extends_, declares⟩
      · exact absurd absurdly own
      · rcases mem_names.mp declares with ⟨signature, member⟩
        refine .inr (List.mem_map.mpr ⟨(method, signature), ?_, rfl⟩)
        rw [List.mem_filter, fresh_iff, List.mem_flatMap]
        exact ⟨⟨parent, extends_, member⟩, own⟩

end Shallow

end Tinox.Check
