import Tinox.Check.Met

/-!
# Jumps

A jump statement is compared with the loop flag.  The flag follows the loop
statements around it, but a lambda inherits it, and jump expressions are not
compared with anything.
-/

namespace Tinox.Check

open Tinox.Syntax Check CheckState
open Node (plain)

variable {t : Tables}

namespace Place

/-- `break` or `continue`, as a statement or as an expression. -/
def isJump (p : Place) : Bool :=
  match p.node with
  | .expr _ .breakExpr | .expr _ .continueExpr | .stmt .breakStmt | .stmt .continueStmt => true
  | _ => false

/-- A jump that the checker does not compare with a loop of its own function or lambda: an
expression, or a statement in a lambda or a guard. -/
def isUncheckedJump (p : Place) : Bool :=
  match p.node with
  | .expr _ .breakExpr | .expr _ .continueExpr => true
  | .stmt .breakStmt | .stmt .continueStmt => p.scope.inLambda || p.scope.inGuard
  | _ => false

end Place

theorem inLoop_of_accepts {body : Stmt} {s : CheckState}
    (jump : body = .breakStmt ∨ body = .continueStmt) (accepts : Accepts (checkStmt t body) s) :
    s.inLoop = true := by
  rcases jump with rfl | rfl
  all_goals
    rw [checkStmt] at accepts
    exact (accepts_require.mp (accepts_bind.mp (accepts_bind.mp accepts).2).1).1

theorem Met.jump_inside {body : Stmt} {scope : Scope} {s : CheckState}
    (met : Met t ⟨.stmt body, scope, s⟩) (jump : body = .breakStmt ∨ body = .continueStmt)
    (outside : scope.inLambda = false) : scope.inLoop = true :=
  met.fits.inLoop outside (inLoop_of_accepts jump met.accepts)

/-- A jump is checked, or it is one of those that the checker does not look at. -/
theorem Place.unchecked_or_inside {p : Place} (jump : p.isJump = true)
    (met : p.scope.inGuard = false → Met t p) :
    p.isUncheckedJump = true ∨ p.scope.inLoop = true := by
  rcases p with ⟨node, scope, s⟩
  cases unchecked : Place.isUncheckedJump ⟨node, scope, s⟩ with
  | true => exact .inl rfl
  | false =>
      apply Or.inr
      cases node with
      | expr hints e =>
          cases e with
          | breakExpr | continueExpr | _ => contradiction
      | stmt body =>
          have statement : body = .breakStmt ∨ body = .continueStmt := by
            cases body with
            | breakStmt => exact .inl rfl
            | continueStmt => exact .inr rfl
            | _ => contradiction
          have surroundings : scope.inLambda = false ∧ scope.inGuard = false := by
            rcases statement with rfl | rfl <;> simpa [Place.isUncheckedJump] using unchecked
          exact (met surroundings.2).jump_inside statement surroundings.1

/-- Jumps stay inside their loops: every jump of a program lies inside a loop of its own
function or lambda, and a statement leaves the loop flag as it was. -/
structure JumpsInside (registered : Registered) (file : SourceFile) : Prop where
  inside : ∀ t p, Occurs registered file t p → p.isJump = true → p.scope.inLoop = true
  restored : ∀ (t : Tables) (body : Stmt) (s : CheckState),
    ((checkStmt t body).run s).2.inLoop = s.inLoop

/-- In an accepted program jumps stay inside their loops exactly if those do that the checker
does not look at. -/
theorem jumpsInside_iff (registered : Registered) (annotationErrors : List BodyError)
    (file : SourceFile) (accepts : accepted registered annotationErrors file) :
    JumpsInside registered file ↔
      ∀ t p, Occurs registered file t p → p.isUncheckedJump = true → p.scope.inLoop = true := by
  constructor
  · intro jumps t p occurs unchecked
    apply jumps.inside t p occurs
    rcases p with ⟨node, scope, s⟩
    cases node with
    | expr hints e => cases e <;> first | rfl | contradiction
    | stmt body => cases body <;> first | rfl | contradiction
  · intro unchecked
    constructor
    · intro t p occurs jump
      rcases Place.unchecked_or_inside jump (occurs.met accepts) with missed | inside
      · exact unchecked t p occurs missed
      · exact inside
    · intro t body s
      exact ((checkStmt t body).grows s).inLoop

/-- `while true { break; }`. -/
theorem jumpsInside_iff_while :
    JumpsInside nothingRegistered
        (mainFile [] .nothing [.whileStmt (.literal (.bool true)) (.block [.breakStmt])]) ↔
      ∀ t p, Occurs nothingRegistered
          (mainFile [] .nothing [.whileStmt (.literal (.bool true)) (.block [.breakStmt])]) t p →
        p.isUncheckedJump = true → p.scope.inLoop = true :=
  jumpsInside_iff nothingRegistered [] _
    (accepted_mainFile (resolveType_nothing _) (by decide))

/-- `match 1 { _ => break }`, outside of any loop. -/
def brokenMatch : SourceFile :=
  mainFile [] .nothing [.expr (.matchExpr (.literal (.integer 1)) [.mk .wildcard none .breakExpr])]

theorem not_jumpsInside_brokenMatch :
    ¬ ∀ (registered : Registered) (annotationErrors : List BodyError) (file : SourceFile),
      accepted registered annotationErrors file → JumpsInside registered file := by
  intro claim
  have jumps := claim nothingRegistered [] brokenMatch
    (accepted_mainFile (resolveType_nothing _) (by decide))
  have found : ∃ t p, Occurs nothingRegistered brokenMatch t p ∧ p.isJump = true ∧
      p.scope.inLoop = false :=
    ⟨_, _, ⟨_, List.Mem.head _, rfl, ((Relation.ReflTransGen.refl.tail (List.Mem.head _)).tail
      (List.Mem.head _)).tail (List.Mem.tail _ (List.Mem.head _))⟩, rfl, rfl⟩
  rcases found with ⟨t, p, occurs, jump, outside⟩
  exact Bool.false_ne_true (outside.symm.trans (jumps.inside t p occurs jump))

end Tinox.Check
