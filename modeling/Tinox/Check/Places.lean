import Tinox.Check.Visits
import Tinox.Check.Program
import Mathlib.Logic.Relation

/-!
# Places in a program

Each node of a body stands at a place: what surrounds it in the text, and the
state in which the checker meets it.  A guard of a match, which the checker
skips, stands where its arm starts.
-/

namespace Tinox.Check

open Tinox.Syntax Check CheckState
open Node (plain)

/-- How a name is declared. -/
inductive Binding where
  /-- By `let`, or as a parameter, a loop variable, a caught error or a part of a pattern. -/
  | fixed
  /-- By `var`. -/
  | assignable
  /-- As the error that a try expression catches, which the checker does not declare. -/
  | missed
  deriving DecidableEq, Repr

/-- What surrounds a node in the text of its body. -/
structure Scope where
  /-- The declarations around the node, the innermost one first. -/
  names : List (Ident × Binding)
  /-- A loop of the same function or lambda surrounds the node. -/
  inLoop : Bool
  inLambda : Bool
  inGuard : Bool

namespace Scope

def bind (scope : Scope) (name : Ident) (binding : Binding) : Scope :=
  { scope with names := (name, binding) :: scope.names }

def bindAll (scope : Scope) : List Ident → Scope
  | [] => scope
  | name :: names => (scope.bind name .fixed).bindAll names

def enterLoop (scope : Scope) : Scope :=
  { scope with inLoop := true }

def enterLambda (scope : Scope) : Scope :=
  { scope with inLoop := false, inLambda := true }

def enterGuard (scope : Scope) : Scope :=
  { scope with inGuard := true }

/-- The scope behind a statement of a block. -/
def behind (scope : Scope) : Stmt → Scope
  | .letStmt name _ _ => scope.bind name .fixed
  | .varStmt name _ _ => scope.bind name .assignable
  | _ => scope

/-- The scope of a function's body. -/
def ofParams (params : List Ident) : Scope :=
  bindAll ⟨[], false, false, false⟩ params

end Scope

mutual

/-- The names that a pattern binds. -/
def patternVars : Pattern → List Ident
  | .ident name (some inner) => name :: patternVars inner
  | .ident name none => [name]
  | .enumVariant _ _ args => allPatternVars args
  | .tuple patterns => allPatternVars patterns
  | .wildcard | .literal _ => []

def allPatternVars : List Pattern → List Ident
  | [] => []
  | pattern :: patterns => patternVars pattern ++ allPatternVars patterns

end

/-- A node with its surroundings. -/
structure Place where
  node : Node
  scope : Scope
  state : CheckState

/-- Nodes that are checked one after the other in one scope. -/
def along (t : Tables) (scope : Scope) : CheckState → List Node → List Place
  | _, [] => []
  | s, node :: nodes => ⟨node, scope, s⟩ :: along t scope ((node.check t).run s).2 nodes

/-- The statements of a block, each in the scope of the declarations before it. -/
def blockParts (t : Tables) (scope : Scope) : CheckState → List Stmt → List Place
  | _, [] => []
  | s, stmt :: stmts =>
      ⟨.stmt stmt, scope, s⟩ :: blockParts t (scope.behind stmt) ((checkStmt t stmt).run s).2 stmts

/-- The guards and bodies of the arms of a match. -/
def caseParts (t : Tables) (scope : Scope) (scrutinee : ValueType) :
    CheckState → List MatchCase → List Place
  | _, [] => []
  | s, .mk pattern guard body :: cases =>
      let bound := ((bindPatternVars t scrutinee pattern).run s).2
      let inner := scope.bindAll (patternVars pattern)
      (guard.toList.map fun guard => ⟨plain guard, inner.enterGuard, bound⟩) ++
        ⟨plain body, inner, bound⟩ ::
          caseParts t scope scrutinee
            { ((inferType t body).run bound).2 with variableMap := s.variableMap } cases

/-- The catch clauses of a try expression. -/
def catchBodyParts (t : Tables) (scope : Scope) : CheckState → List CatchClause → List Place
  | _, [] => []
  | s, .mk param _ body :: catches =>
      ⟨.stmt body, scope.bind param .missed, s⟩ ::
        catchBodyParts t scope ((checkStmt t body).run s).2 catches

/-- The catch clauses of a try statement. -/
def catchParts (t : Tables) (scope : Scope) : CheckState → List CatchClause → List Place
  | _, [] => []
  | s, .mk param type body :: catches =>
      let bound := s.insert param (fromParserType type, false)
      ⟨.stmt body, scope.bind param .fixed, bound⟩ ::
        catchParts t scope ((checkStmt t body).run bound).2 catches

/-- The arms of a select. -/
def armParts (t : Tables) (scope : Scope) : CheckState → List SelectArm → List Place
  | _, [] => []
  | s, .mk source var body :: arms =>
      let opened := ((inferType t source).run s).2
      let bound := opened.insert var (.int, false)
      ⟨plain source, scope, s⟩ :: ⟨.stmt body, scope.bind var .fixed, bound⟩ ::
        armParts t scope { ((checkStmt t body).run bound).2 with variableMap := opened.variableMap } arms

/-- The parts of an expression; for a lambda with hints for its parameters. -/
def exprParts (t : Tables) (scope : Scope) (s : CheckState) (hints : List ValueType) :
    Expr → List Place
  | .lambda params retType body =>
      let bound := ((bindParams hints params).run s).2
      [⟨plain body, scope.enterLambda.bindAll (params.map Param.name),
        { bound with currentReturnType := retType.map fromParserType }⟩]
  | .block stmts => blockParts t scope s stmts
  | .whileExpr cond body =>
      [⟨plain cond, scope, s⟩, ⟨plain body, scope.enterLoop, ((inferType t cond).run s).2⟩]
  | .forExpr var iter body =>
      let (type, s') := (inferType t iter).run s
      [⟨plain iter, scope, s⟩,
        ⟨plain body, (scope.bind var .fixed).enterLoop, s'.insert var (type, false)⟩]
  | .loopExpr body => [⟨plain body, scope.enterLoop, s⟩]
  | .matchExpr expr cases =>
      let (type, s') := (inferType t expr).run s
      ⟨plain expr, scope, s⟩ :: caseParts t scope type s' cases
  | .tryExpr body catches finally_ =>
      let s' := ((inferType t body).run s).2
      ⟨plain body, scope, s⟩ ::
        (catchBodyParts t scope s' catches ++
          along t scope ((checkCatchBodies t catches).run s').2 (finally_.toList.map plain))
  | e => along t scope s (operands t s e)

/-- The body of a loop statement. -/
def loopPart (scope : Scope) (s : CheckState) (body : Stmt) : Place :=
  ⟨.stmt body, scope.enterLoop, { s with inLoop := true }⟩

/-- The parts of a statement. -/
def stmtParts (t : Tables) (scope : Scope) (s : CheckState) : Stmt → List Place
  | .block stmts => blockParts t scope s stmts
  | .whileStmt cond body =>
      [⟨plain cond, scope, s⟩, loopPart scope ((inferType t cond).run s).2 body]
  | .forStmt var iter body =>
      let (type, s') := (inferType t iter).run s
      [⟨plain iter, scope, s⟩,
        loopPart (scope.bind var .fixed) (s'.insert var (loopVarType type, false)) body]
  | .loop body => [loopPart scope s body]
  | .forC init cond update body =>
      let inner := init.toList.foldl Scope.behind scope
      let nodes := cond.toList.map plain ++ update.toList.map plain
      let s' := ((checkOption t init).run s).2
      along t scope s (init.toList.map .stmt) ++ along t inner s' nodes ++
        [loopPart inner ((walk t nodes).run s').2 body]
  | .tryStmt body catches finally_ =>
      let s' := ((checkStmt t body).run s).2
      ⟨.stmt body, scope, s⟩ ::
        (catchParts t scope s' catches ++
          along t scope ((checkCatches t catches).run s').2 (finally_.toList.map .stmt))
  | .select arms default =>
      armParts t scope s arms ++
        along t scope ((checkArms t arms).run s).2 (default.toList.map .stmt)
  | stmt => along t scope s (stmtOperands stmt)

/-- The places directly inside a place. -/
def Place.parts (t : Tables) (p : Place) : List Place :=
  match p.node with
  | .expr hints e => exprParts t p.scope p.state hints e
  | .stmt stmt => stmtParts t p.scope p.state stmt

/-- A place lies inside another one, at any depth. -/
def Inside (t : Tables) : Place → Place → Prop :=
  Relation.ReflTransGen fun p q => q ∈ p.parts t

/-- The place of a body, whose parameters are visible, with what registration has declared. -/
def Body.place (body : Body) (s : CheckState) : Place where
  node := .stmt body.stmt
  scope := .ofParams (body.params.map Prod.fst)
  state := { ((insertParams body.params).run s).2 with currentReturnType := some body.returnType }

end Tinox.Check
