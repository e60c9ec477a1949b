import Tinox.Check.Interfaces
import Mathlib.Data.List.Dedup

/-!
# The expansion of interfaces

What one expansion does to the tables and what it reports, what a run over all
interfaces leaves in each table, and the orders in which a run may take place.
-/

namespace Tinox.Check

open Tinox.Syntax

namespace Checker

/-- The methods in the table of an interface. -/
def own (s : Checker) (name : String) : Methods :=
  (s.interfaces name).getD []

/-- The interfaces that an interface names behind `extends`. -/
def parents (s : Checker) (name : String) : List String :=
  (s.interfaceExtends name).getD []

end Checker

/-- A method that an interface does not declare. -/
def fresh (own : Methods) (entry : String × Signature) : Bool :=
  (own.find? fun found => found.1 == entry.1).isNone

variable {method : String}

theorem fresh_iff {own : Methods} {entry : String × Signature} :
    fresh own entry ↔ entry.1 ∉ own.names := by
  rw [fresh, Option.isNone_iff_eq_none, List.find?_eq_none, Methods.names, List.mem_map]
  constructor
  · rintro absent ⟨found, member, same⟩
    exact absent found member (beq_iff_eq.mpr same)
  · intro absent found member same
    exact absent ⟨found, member, beq_iff_eq.mp same⟩

theorem find?_eq_of_mem {own : Methods} {signature : Signature} (distinct : own.names.Nodup)
    (member : (method, signature) ∈ own) :
    own.find? (fun found => found.1 == method) = some (method, signature) := by
  induction own with
  | nil => cases member
  | cons head tail ih =>
      rw [Methods.names, List.map_cons, List.nodup_cons] at distinct
      rw [List.find?_cons]
      rcases List.mem_cons.mp member with rfl | member
      · rw [beq_self_eq_true]
      · have other : head.1 ≠ method := by
          rintro rfl
          exact distinct.1 (List.mem_map.mpr ⟨_, member, rfl⟩)
        rw [beq_eq_false_iff_ne.mpr other]
        exact ih distinct.2 member

variable {s : Checker} {e : TypeError}

section Merge

variable {iface : String} {parents : List String} {own : Methods}

theorem foldl_inheritMethod (inherited : Methods) (s : Checker) {current : Methods}
    (table : s.interfaces iface = some current) :
    (inherited.foldl (inheritMethod iface parents own) s).interfaces =
        Function.update s.interfaces iface (some (current ++ inherited.filter (fresh own))) ∧
      (inherited.foldl (inheritMethod iface parents own) s).interfaceExtends =
        s.interfaceExtends ∧
      (inherited.foldl (inheritMethod iface parents own) s).interfaceImplementations =
        s.interfaceImplementations ∧
      (inherited.foldl (inheritMethod iface parents own) s).functions = s.functions := by
  induction inherited generalizing s current with
  | nil =>
      rw [List.filter_nil, List.append_nil, ← table, Function.update_eq_self]
      exact ⟨rfl, rfl, rfl, rfl⟩
  | cons entry inherited ih =>
      rw [List.foldl_cons]
      cases found : own.find? fun e => e.1 == entry.1 with
      | some e =>
          have stale : fresh own entry = false := by rw [fresh, found]; rfl
          rw [List.filter_cons_of_neg (by simp [stale])]
          by_cases same : signaturesMatch s.interfaceImplementations e.2 entry.2 = true
          · have step : inheritMethod iface parents own s entry = s := by
              rw [inheritMethod, found]
              exact if_pos same
            rw [step]
            exact ih s table
          · rw [inheritMethod, found]
            simp only [if_neg same]
            exact ih _ table
      | none =>
          have new : fresh own entry = true := by rw [fresh, found]; rfl
          rw [List.filter_cons_of_pos new, inheritMethod, found]
          simp only
          have table' : (Function.update s.interfaces iface
              ((s.interfaces iface).map fun methods => methods ++ [entry])) iface =
              some (current ++ [entry]) := by
            rw [Function.update_self, table]
            rfl
          have rest := ih
            { s with
              interfaces := Function.update s.interfaces iface
                ((s.interfaces iface).map fun methods => methods ++ [entry]) } table'
          rw [Function.update_idem, List.append_assoc] at rest
          exact rest

theorem errors_inheritMethod (member : e ∈ s.errors) (inherited : Methods) :
    e ∈ (inherited.foldl (inheritMethod iface parents own) s).errors := by
  induction inherited generalizing s with
  | nil => exact member
  | cons entry inherited ih =>
      rw [List.foldl_cons]
      apply ih
      unfold inheritMethod
      split
      · split
        · exact member
        · exact List.mem_append_left _ member
      · exact member

theorem implementations_inheritMethod (s : Checker) (entry : String × Signature) :
    (inheritMethod iface parents own s entry).interfaceImplementations =
      s.interfaceImplementations := by
  unfold inheritMethod
  split
  · split <;> rfl
  · rfl

theorem conflict_inheritMethod {inherited : Methods} {a b : Signature}
    (inherits : (method, b) ∈ inherited)
    (found : own.find? (fun e => e.1 == method) = some (method, a))
    (differ : signaturesMatch s.interfaceImplementations a b = false) :
    ∃ parent, TypeError.interfaceMethodConflict iface parent method ∈
      (inherited.foldl (inheritMethod iface parents own) s).errors := by
  induction inherited generalizing s with
  | nil => cases inherits
  | cons entry inherited ih =>
      rw [List.foldl_cons]
      rcases List.mem_cons.mp inherits with rfl | inherits
      · have step : ∃ parent, TypeError.interfaceMethodConflict iface parent method ∈
            (inheritMethod iface parents own s (method, b)).errors := by
          rw [inheritMethod, found]
          simp only [differ, Bool.false_eq_true, if_false]
          exact ⟨_, List.mem_append_right _ (List.mem_singleton_self _)⟩
        rcases step with ⟨parent, reported⟩
        exact ⟨parent, errors_inheritMethod reported inherited⟩
      · apply ih inherits
        rw [implementations_inheritMethod]
        exact differ

theorem conflict_of_mem {inherited : Methods}
    (member : e ∈ (inherited.foldl (inheritMethod iface parents own) s).errors) :
    e ∈ s.errors ∨ ∃ parent method name a b, e = .interfaceMethodConflict iface parent method ∧
      (method, b) ∈ inherited ∧ own.find? (fun e => e.1 == method) = some (name, a) ∧
      signaturesMatch s.interfaceImplementations a b = false := by
  induction inherited generalizing s with
  | nil => exact .inl member
  | cons entry inherited ih =>
      rw [List.foldl_cons] at member
      rcases ih member with old | ⟨parent, method, name, a, b, same, inherits, found, differ⟩
      · unfold inheritMethod at old
        split at old
        · rename_i found
          split at old
          · exact .inl old
          · rename_i differ
            rcases List.mem_append.mp old with old | new
            · exact .inl old
            · refine .inr ⟨_, entry.1, _, _, entry.2, List.mem_singleton.mp new,
                List.mem_cons_self, found, Bool.eq_false_iff.mpr differ⟩
        · exact .inl old
      · rw [implementations_inheritMethod] at differ
        exact .inr ⟨parent, method, name, a, b, same, List.mem_cons_of_mem _ inherits, found,
          differ⟩

end Merge

/-- What an interface inherits from its parents' tables as they are. -/
def Checker.inherited (s : Checker) (name : String) : Methods :=
  ((s.parents name).flatMap s.own).filter (fresh (s.own name))

section Expand

variable {s : Checker} {name : String}

theorem expandInterface_tables (declared : (s.interfaces name).isSome) :
    (expandInterface s name).interfaces =
        Function.update s.interfaces name (some (s.own name ++ s.inherited name)) ∧
      (expandInterface s name).interfaceExtends = s.interfaceExtends ∧
      (expandInterface s name).interfaceImplementations = s.interfaceImplementations ∧
      (expandInterface s name).functions = s.functions := by
  rcases Option.isSome_iff_exists.mp declared with ⟨own, table⟩
  have same : s.own name = own := by rw [Checker.own, table]; rfl
  rw [expandInterface, Checker.inherited, same]
  simp only [table]
  exact foldl_inheritMethod _ _ table

/-- An own method that does not match one in a parent's table. -/
def Checker.Conflicts (s : Checker) (name method : String) : Prop :=
  ∃ entry a b, (method, b) ∈ (s.parents name).flatMap s.own ∧
    (s.own name).find? (fun e => e.1 == method) = some (entry, a) ∧
    signaturesMatch s.interfaceImplementations a b = false

theorem errors_expandInterface (member : e ∈ s.errors) : e ∈ (expandInterface s name).errors := by
  unfold expandInterface
  simp only
  split
  · exact errors_inheritMethod (List.mem_append_left _ member) _
  · exact List.mem_append_left _ member

theorem conflict_expandInterface {a b : Signature}
    (inherits : (method, b) ∈ (s.parents name).flatMap s.own)
    (found : (s.own name).find? (fun e => e.1 == method) = some (method, a))
    (differ : signaturesMatch s.interfaceImplementations a b = false) :
    ∃ parent, TypeError.interfaceMethodConflict name parent method ∈
      (expandInterface s name).errors := by
  cases table : s.interfaces name with
  | none =>
      rw [Checker.own, table] at found
      cases found
  | some own =>
      have same : s.own name = own := by rw [Checker.own, table]; rfl
      rw [same] at found
      rw [expandInterface]
      simp only [table]
      exact conflict_inheritMethod inherits found differ

theorem mem_errors_expandInterface (member : e ∈ (expandInterface s name).errors) : e ∈ s.errors ∨
      (∃ parent ∈ s.parents name, (s.interfaces parent).isNone ∧ e = .undefinedInterface parent) ∨
      ∃ parent method, e = .interfaceMethodConflict name parent method ∧
        s.Conflicts name method := by
  have undefined : e ∈ s.errors ++
      ((s.parents name).filter fun parent => (s.interfaces parent).isNone).map
        TypeError.undefinedInterface →
      e ∈ s.errors ∨
        (∃ parent ∈ s.parents name, (s.interfaces parent).isNone ∧ e = .undefinedInterface parent) ∨
        ∃ parent method, e = .interfaceMethodConflict name parent method ∧
          s.Conflicts name method := by
    intro member
    rcases List.mem_append.mp member with old | new
    · exact .inl old
    · rcases List.mem_map.mp new with ⟨parent, missing, same⟩
      rw [List.mem_filter] at missing
      exact .inr (.inl ⟨parent, missing.1, missing.2, same.symm⟩)
  unfold expandInterface at member
  simp only at member
  split at member
  · rename_i own table
    have same : s.own name = own := by rw [Checker.own, table]; rfl
    rcases conflict_of_mem member with old | ⟨parent, method, entry, a, b, error, inherits, found, differ⟩
    · exact undefined old
    · rw [← same] at found
      exact .inr (.inr ⟨parent, method, error, entry, a, b, inherits, found, differ⟩)
  · exact undefined member

/-- An interface that is not declared is reported at each interface that
extends it. -/
theorem undefined_expandInterface {parent : String} (extends_ : parent ∈ s.parents name)
    (missing : (s.interfaces parent).isNone) :
    TypeError.undefinedInterface parent ∈ (expandInterface s name).errors := by
  have reported : TypeError.undefinedInterface parent ∈ s.errors ++
      ((s.parents name).filter fun parent => (s.interfaces parent).isNone).map
        TypeError.undefinedInterface := by
    apply List.mem_append_right
    exact List.mem_map_of_mem (List.mem_filter.mpr ⟨extends_, missing⟩)
  unfold expandInterface
  simp only
  split
  · exact errors_inheritMethod reported _
  · exact reported

end Expand

/-- A state of the second pass over the tables of a file. -/
structure Passing (base s : Checker) : Prop where
  extends_ : s.interfaceExtends = base.interfaceExtends
  implementations : s.interfaceImplementations = base.interfaceImplementations
  functions : s.functions = base.functions
  declared : ∀ name, (s.interfaces name).isSome ↔ (base.interfaces name).isSome

variable {name : String}

theorem Passing.parents {base : Checker} (passing : Passing base s) (name : String) :
    s.parents name = base.parents name := by
  rw [Checker.parents, Checker.parents, passing.extends_]

theorem Passing.expand {base : Checker} (passing : Passing base s)
    (declared : (base.interfaces name).isSome) : Passing base (expandInterface s name) := by
  rcases expandInterface_tables ((passing.declared name).mpr declared) with
    ⟨tables, extends_, implementations, functions⟩
  refine ⟨extends_.trans passing.extends_, implementations.trans passing.implementations,
    functions.trans passing.functions, ?_⟩
  intro other
  rw [tables]
  by_cases same : other = name
  · subst same
    rw [Function.update_self]
    exact iff_of_true rfl declared
  · rw [Function.update_of_ne same]
    exact passing.declared other

section Runs

variable {base : Checker} {order : List String}

theorem passing_run (passing : Passing base s)
    (declared : ∀ name ∈ order, (base.interfaces name).isSome) :
    Passing base (order.foldl expandInterface s) := by
  induction order generalizing s with
  | nil => exact passing
  | cons name order ih =>
      apply ih (passing.expand (declared name List.mem_cons_self))
      intro other member
      exact declared other (List.mem_cons_of_mem name member)

theorem untouched_run (passing : Passing base s)
    (declared : ∀ name ∈ order, (base.interfaces name).isSome) (other : name ∉ order) :
    (order.foldl expandInterface s).interfaces name = s.interfaces name := by
  induction order generalizing s with
  | nil => rfl
  | cons first order ih =>
      rw [List.mem_cons, not_or] at other
      have here := declared first List.mem_cons_self
      rw [List.foldl_cons, ih (passing.expand here)
        (fun name member => declared name (List.mem_cons_of_mem first member)) other.2,
        (expandInterface_tables ((passing.declared first).mpr here)).1,
        Function.update_of_ne other.1]

/-- The table of an interface after the pass: its own methods, and what the
tables of its parents held when its turn came. -/
theorem own_run {before after : List String}
    (declared : ∀ other ∈ before ++ name :: after, (base.interfaces other).isSome)
    (once : (before ++ name :: after).Nodup) :
    ((before ++ name :: after).foldl expandInterface base).own name =
      base.own name ++
        ((base.parents name).flatMap (before.foldl expandInterface base).own).filter
          (fresh (base.own name)) := by
  have start : Passing base base := ⟨rfl, rfl, rfl, fun _ => Iff.rfl⟩
  have declaredBefore : ∀ other ∈ before, (base.interfaces other).isSome := fun other member =>
    declared other (List.mem_append_left _ member)
  have here : (base.interfaces name).isSome :=
    declared name (List.mem_append_right _ List.mem_cons_self)
  have declaredAfter : ∀ other ∈ after, (base.interfaces other).isSome := fun other member =>
    declared other (List.mem_append_right _ (List.mem_cons_of_mem _ member))
  have passing := passing_run start declaredBefore
  have notBefore : name ∉ before := by
    intro member
    exact (List.nodup_append.mp once).2.2 name member name List.mem_cons_self rfl
  have notAfter : name ∉ after := (List.nodup_cons.mp (List.nodup_append.mp once).2.1).1
  have unexpanded : (before.foldl expandInterface base).own name = base.own name := by
    rw [Checker.own, untouched_run start declaredBefore notBefore]
    rfl
  rw [List.foldl_append, List.foldl_cons, Checker.own,
    untouched_run (passing.expand here) declaredAfter notAfter,
    (expandInterface_tables ((passing.declared name).mpr here)).1, Function.update_self,
    Option.getD_some, Checker.inherited, unexpanded, passing.parents]

theorem errors_run (member : e ∈ s.errors) : e ∈ (order.foldl expandInterface s).errors := by
  induction order generalizing s with
  | nil => exact member
  | cons name order ih => exact ih (errors_expandInterface member)

theorem mem_errors_run (member : e ∈ (order.foldl expandInterface s).errors) :
    e ∈ s.errors ∨ ∃ before name after, order = before ++ name :: after ∧
      e ∉ (before.foldl expandInterface s).errors ∧
      e ∈ (expandInterface (before.foldl expandInterface s) name).errors := by
  induction order generalizing s with
  | nil => exact .inl member
  | cons first order ih =>
      by_cases old : e ∈ s.errors
      · exact .inl old
      · rcases ih member with new | ⟨before, name, after, rfl, absent, reported⟩
        · exact .inr ⟨[], first, order, rfl, old, new⟩
        · exact .inr ⟨first :: before, name, after, rfl, absent, reported⟩

end Runs

section Base

variable {functions : String → Option Signature} {file : SourceFile}

theorem registerDecl_functions (s : Checker) (decls : List Decl) :
    decls.foldl registerDecl { s with functions := functions } =
      { decls.foldl registerDecl s with functions := functions } := by
  induction decls generalizing s with
  | nil => rfl
  | cons decl decls ih =>
      have step : registerDecl { s with functions := functions } decl =
          { registerDecl s decl with functions := functions } := by
        cases decl with
        | interface iface =>
            simp only [registerDecl]
            split <;> rfl
        | _ => rfl
      rw [List.foldl_cons, step]
      exact ih (registerDecl s decl)

theorem registerAll_eq (functions : String → Option Signature) (file : SourceFile) :
    registerAll functions file =
      { registerAll (fun _ => none) file with functions := functions } :=
  registerDecl_functions (Checker.new fun _ => none) (flattenDecls file)

theorem declared_of_extends (decls : List Decl)
    (declared : ∀ name, (s.interfaceExtends name).isSome → (s.interfaces name).isSome)
    (name : String) (extends_ : ((decls.foldl registerDecl s).interfaceExtends name).isSome) :
    ((decls.foldl registerDecl s).interfaces name).isSome := by
  induction decls generalizing s with
  | nil => exact declared name extends_
  | cons decl decls ih =>
      apply ih ?_ extends_
      intro other
      cases decl with
      | interface iface =>
          by_cases same : other = iface.name
          · subst same
            intro _
            simp only [registerDecl]
            split <;> simp
          · simp only [registerDecl]
            split
            all_goals
              simp only [Function.update_of_ne same]
              exact declared other
      | trait decl =>
          intro extends_
          by_cases same : other = decl.name
          · subst same
            simp [registerDecl]
          · simp only [registerDecl, Function.update_of_ne same]
            exact declared other extends_
      | _ => exact declared other

/-- The name that a declaration enters into the tables. -/
def tableName : Decl → Option String
  | .interface iface => some iface.name
  | .trait decl => some decl.name
  | _ => none

theorem name_of_declared (decls : List Decl) (name : String)
    (table : ((decls.foldl registerDecl s).interfaces name).isSome) :
    (s.interfaces name).isSome ∨ name ∈ decls.filterMap tableName := by
  induction decls generalizing s with
  | nil => exact .inl table
  | cons decl decls ih =>
      rcases ih table with step | later
      · suffices head : (s.interfaces name).isSome ∨ tableName decl = some name by
          rcases head with old | new
          · exact .inl old
          · exact .inr (List.mem_filterMap.mpr ⟨decl, List.mem_cons_self, new⟩)
        cases decl with
        | interface iface =>
            by_cases same : name = iface.name
            · exact .inr (congrArg some same.symm)
            · simp only [registerDecl] at step
              split at step
              all_goals
                simp only [Function.update_of_ne same] at step
                exact .inl step
        | trait decl =>
            by_cases same : name = decl.name
            · exact .inr (congrArg some same.symm)
            · simp only [registerDecl, Function.update_of_ne same] at step
              exact .inl step
        | _ => exact .inl step
      · rcases List.mem_filterMap.mp later with ⟨other, member, same⟩
        exact .inr (List.mem_filterMap.mpr ⟨other, List.mem_cons_of_mem decl member, same⟩)

/-- The keys of the interface table, in some order. -/
def tableNames (file : SourceFile) : List String :=
  (((flattenDecls file).filterMap tableName).filter fun name =>
    ((registerAll (fun _ => none) file).interfaces name).isSome).dedup

theorem mem_tableNames (name : String) :
    name ∈ tableNames file ↔ ((registerAll (fun _ => none) file).interfaces name).isSome := by
  rw [tableNames, List.mem_dedup, List.mem_filter]
  constructor
  · exact fun member => member.2
  · intro table
    rcases name_of_declared (flattenDecls file) name table with new | member
    · cases new
    · exact ⟨member, table⟩

/-- The orders in which some interfaces come first. -/
def Orders.sorted (file : SourceFile) (first firstTable : String → Bool) : Orders file where
  extendsOrder :=
    let keys := (tableNames file).filter fun name =>
      ((registerAll (fun _ => none) file).interfaceExtends name).isSome
    keys.filter first ++ keys.filter fun name => !first name
  interfaceOrder :=
    (tableNames file).filter firstTable ++ (tableNames file).filter fun name => !firstTable name
  extends_nodup := by
    apply List.Nodup.append
    · exact ((List.nodup_dedup _).filter _).filter _
    · exact ((List.nodup_dedup _).filter _).filter _
    · intro name early late
      rw [List.mem_filter] at early late
      rw [early.2] at late
      exact absurd late.2 (by simp)
  mem_extends name := by
    have declared := declared_of_extends (s := Checker.new fun _ => none) (flattenDecls file)
      (fun _ none => by cases none) name
    simp only [List.mem_append, List.mem_filter, mem_tableNames]
    constructor
    · rintro (early | late)
      · exact early.1.2
      · exact late.1.2
    · intro extends_
      cases order : first name
      · exact .inr ⟨⟨declared extends_, extends_⟩, rfl⟩
      · exact .inl ⟨⟨declared extends_, extends_⟩, rfl⟩
  interface_nodup := by
    apply List.Nodup.append
    · exact (List.nodup_dedup _).filter _
    · exact (List.nodup_dedup _).filter _
    · intro name early late
      rw [List.mem_filter] at early late
      rw [early.2] at late
      exact absurd late.2 (by simp)
  mem_interface name := by
    rw [List.mem_append, List.mem_filter, List.mem_filter, mem_tableNames]
    constructor
    · rintro (early | late)
      · exact early.1
      · exact late.1
    · intro table
      cases order : firstTable name
      · exact .inr ⟨table, rfl⟩
      · exact .inl ⟨table, rfl⟩

end Base

end Tinox.Check
