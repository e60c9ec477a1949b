import Tinox.Check.Met

/-!
# Writes

An assignment statement is compared with the table of variables.  Assignment
expressions and compound assignments only have their parts inferred, and guards
are not visited at all.
-/

namespace Tinox.Check

open Tinox.Syntax Check CheckState
open Node (plain)

variable {t : Tables}

namespace Place

/-- The target and the value of a write, of which there are three forms. -/
def written (p : Place) : Option (Expr × Expr) :=
  match p.node with
  | .stmt (.assignment target value) | .expr _ (.assign target value)
  | .expr _ (.compoundAssign _ target value) => some (target, value)
  | _ => none

/-- How a name that is written was declared, if the target is a name. -/
def declaredTarget (p : Place) (target : Expr) : Option Binding :=
  (calledName target).bind fun name => p.scope.names.lookup name

/-- A write that the checker does not compare with the table of variables. -/
def isUncheckedWrite (p : Place) : Bool :=
  match p.node with
  | .expr _ (.assign _ _) | .expr _ (.compoundAssign _ _ _) => true
  | .stmt (.assignment target _) => p.scope.inGuard || p.declaredTarget target = some .missed
  | _ => false

/-- The type of the target, and that of the value behind it. -/
def writtenTypes (t : Tables) (p : Place) (target value : Expr) : ValueType × ValueType :=
  let (targetType, s) := (inferType t target).run p.state
  (targetType, ((inferType t value).run s).1)

end Place

/-- A write that is allowed: the target is no name that must not be assigned, and the value
has a type that the target takes. -/
structure WriteAllowed (t : Tables) (p : Place) (target value : Expr) : Prop where
  assignable : p.declaredTarget target = none ∨ p.declaredTarget target = some .assignable
  compatible : typesCompatible t.interfaceImplementations (p.writtenTypes t target value).1
    (p.writtenTypes t target value).2 = true

/-- Every write of a program, at any depth, is allowed. -/
def WritesAllowed (registered : Registered) (file : SourceFile) : Prop :=
  ∀ t p target value, Occurs registered file t p → p.written = some (target, value) →
    WriteAllowed t p target value

theorem not_fixed_of_checkTarget {name : Ident} {type : ValueType} {s : CheckState}
    (immutable : s.lookup name = some (type, false)) : ¬ Accepts (checkTarget (.ident name)) s := by
  intro accepts
  rw [checkTarget, calledName] at accepts
  have looked := (accepts_bind.mp accepts).2
  simp only [run_state, immutable] at looked
  exact accepts_report looked

theorem Met.writeAllowed {target value : Expr} {scope : Scope} {s : CheckState}
    (met : Met t ⟨.stmt (.assignment target value), scope, s⟩)
    (declared : (⟨.stmt (.assignment target value), scope, s⟩ : Place).declaredTarget target ≠
      some .missed) :
    WriteAllowed t ⟨.stmt (.assignment target value), scope, s⟩ target value := by
  have accepts : Accepts (checkStmt t (.assignment target value)) s := met.accepts
  rw [checkStmt] at accepts
  rcases accepts_bind.mp accepts with ⟨targetAccepted, accepts⟩
  rcases accepts_bind.mp accepts with ⟨valueAccepted, accepts⟩
  rcases accepts_bind.mp accepts with ⟨argument, accepts⟩
  rw [quiet_checkArgument _ _ _ _ argument] at accepts
  have later := (met.fits.later targetAccepted).later valueAccepted
  constructor
  · cases found : (⟨.stmt (.assignment target value), scope, s⟩ : Place).declaredTarget target with
    | none => exact .inl rfl
    | some binding =>
        cases binding with
        | assignable => exact .inr rfl
        | missed => exact absurd found declared
        | fixed =>
            rcases Option.bind_eq_some_iff.mp found with ⟨name, called, bound⟩
            rcases later.fixed name bound with ⟨type, immutable⟩
            have named : target = .ident name := by
              cases target with
              | ident other => exact congrArg Expr.ident (Option.some.inj called)
              | _ => contradiction
            subst named
            exact absurd (accepts_bind.mp accepts).1 (not_fixed_of_checkTarget immutable)
  · exact (accepts_require.mp argument).1

/-- A write is checked, or it is one of those that the checker does not look at. -/
theorem Place.unchecked_or_allowed {p : Place} {target value : Expr}
    (written : p.written = some (target, value)) (met : p.scope.inGuard = false → Met t p) :
    p.isUncheckedWrite = true ∨ WriteAllowed t p target value := by
  rcases p with ⟨node, scope, s⟩
  cases unchecked : Place.isUncheckedWrite ⟨node, scope, s⟩ with
  | true => exact .inl rfl
  | false =>
      apply Or.inr
      cases node with
      | expr hints e => cases e <;> contradiction
      | stmt body =>
          cases body with
          | assignment target' value' =>
              have same : (target', value') = (target, value) := Option.some.inj written
              cases same
              rcases Bool.or_eq_false_iff.mp unchecked with ⟨outside, bound⟩
              exact (met outside).writeAllowed (of_decide_eq_false bound)
          | _ => contradiction

/-- In an accepted program all writes are allowed exactly if those are that the checker does
not look at. -/
theorem writesAllowed_iff (registered : Registered) (annotationErrors : List BodyError)
    (file : SourceFile) (accepts : accepted registered annotationErrors file) :
    WritesAllowed registered file ↔
      ∀ t p target value, Occurs registered file t p → p.isUncheckedWrite = true →
        p.written = some (target, value) → WriteAllowed t p target value := by
  constructor
  · intro allowed t p target value occurs _ written
    exact allowed t p target value occurs written
  · intro unchecked t p target value occurs written
    rcases Place.unchecked_or_allowed written (occurs.met accepts) with missed | allowed
    · exact unchecked t p target value occurs missed written
    · exact allowed

/-- `var x = 1; x = 2;`. -/
theorem writesAllowed_iff_var :
    WritesAllowed nothingRegistered (mainFile [] .nothing
        [.varStmt "x" none (some (.literal (.integer 1))),
          .assignment (.ident "x") (.literal (.integer 2))]) ↔
      ∀ t p target value, Occurs nothingRegistered (mainFile [] .nothing
          [.varStmt "x" none (some (.literal (.integer 1))),
            .assignment (.ident "x") (.literal (.integer 2))]) t p →
        p.isUncheckedWrite = true → p.written = some (target, value) →
          WriteAllowed t p target value :=
  writesAllowed_iff nothingRegistered [] _
    (accepted_mainFile (resolveType_nothing _) (by decide))

/-- `let x = 1; x += 1;`. -/
def compoundWrite : SourceFile :=
  mainFile [] .nothing [.letStmt "x" none (some (.literal (.integer 1))),
    .expr (.compoundAssign .add (.ident "x") (.literal (.integer 1)))]

theorem not_writesAllowed_compoundWrite :
    ¬ ∀ (registered : Registered) (annotationErrors : List BodyError) (file : SourceFile),
      accepted registered annotationErrors file → WritesAllowed registered file := by
  intro claim
  have allowed := claim nothingRegistered [] compoundWrite
    (accepted_mainFile (resolveType_nothing _) (by decide))
  have found : ∃ t p, Occurs nothingRegistered compoundWrite t p ∧
      p.written = some (.ident "x", .literal (.integer 1)) ∧
        p.declaredTarget (.ident "x") = some .fixed :=
    ⟨_, _, ⟨_, List.Mem.head _, rfl, ((Relation.ReflTransGen.refl.tail
      (List.Mem.tail _ (List.Mem.head _))).tail (List.Mem.head _))⟩, rfl, rfl⟩
  rcases found with ⟨t, p, occurs, written, fixed⟩
  have assignable := (allowed t p _ _ occurs written).assignable
  rw [fixed] at assignable
  rcases assignable with wrong | wrong <;> exact absurd wrong (by decide)

end Tinox.Check
