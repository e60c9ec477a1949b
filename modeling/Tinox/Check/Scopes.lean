import Tinox.Check.Met
import Tinox.Check.Sizes

/-!
# Scopes

The checker restores the table of variables behind blocks, lambdas and arms.
Behind loops over containers, C-style loops and catch clauses it does not, so
that their variables stay visible.
-/

namespace Tinox.Check

open Tinox.Syntax Check CheckState
open Node (plain run_check_plain)

variable {t : Tables} {scope : Scope} {s s' s'' : CheckState}

/-- The same variables are visible, with the same types and mutability. -/
def SameVisible (s s' : CheckState) : Prop :=
  ∀ name, s'.lookup name = s.lookup name

namespace SameVisible

theorem refl (s : CheckState) : SameVisible s s :=
  fun _ => rfl

theorem symm (same : SameVisible s s') : SameVisible s' s :=
  fun name => (same name).symm

theorem trans (first : SameVisible s s') (second : SameVisible s' s'') : SameVisible s s'' :=
  fun name => (second name).trans (first name)

/-- A declaration does the same to states that see the same variables. -/
theorem insert (same : SameVisible s s') (name : String) (entry : Entry) :
    SameVisible (s.insert name entry) (s'.insert name entry) := by
  intro other
  by_cases equal : other = name
  · subst equal
    rw [lookup_insert_self, lookup_insert_self]
  · rw [lookup_insert_other _ _ equal, lookup_insert_other _ _ equal, same other]

end SameVisible

/-- Declarations that are made one after the other. -/
def insertAll (s : CheckState) : List (String × Entry) → CheckState
  | [] => s
  | (name, entry) :: entries => insertAll (s.insert name entry) entries

theorem SameVisible.insertAll (same : SameVisible s s') (entries : List (String × Entry)) :
    SameVisible (insertAll s entries) (insertAll s' entries) := by
  induction entries generalizing s s' with
  | nil => exact same
  | cons entry entries ih => exact ih (same.insert entry.1 entry.2)

/-- The variable that a `let` or `var` statement declares. -/
def Node.declared : Node → Option Ident
  | .stmt (.letStmt name _ _) | .stmt (.varStmt name _ _) => some name
  | _ => none

/-- The body of a catch clause, and what the clause declares. -/
def catchBody : CatchClause → Stmt
  | .mk _ _ body => body

def catchEntry : CatchClause → String × Entry
  | .mk param type _ => (param, (fromParserType type, false))

/-- The statements inside a node that are no statements of a block and no arms, so that what
they declare stays visible behind the node. -/
def Node.loose : Node → List Stmt
  | .stmt (.ifStmt _ thenBranch elseBranch) => thenBranch :: elseBranch.toList
  | .stmt (.whileStmt _ body) | .stmt (.forStmt _ _ body) | .stmt (.loop body)
  | .stmt (.deferStmt body) => [body]
  | .stmt (.forC init _ _ body) => init.toList ++ [body]
  | .stmt (.tryStmt body catches finally_) => body :: (catches.map catchBody ++ finally_.toList)
  | .stmt (.select _ default) => default.toList
  | .expr _ (.tryExpr _ catches _) => catches.map catchBody
  | _ => []

namespace Place

/-- The state behind the check of a place. -/
def after (t : Tables) (p : Place) : CheckState :=
  ((p.node.check t).run p.state).2

/-- The loop variable, or the caught errors, that a place declares itself, and the state in
which it does. -/
def declares (t : Tables) (p : Place) : CheckState × List (String × Entry) :=
  match p.node with
  | .stmt (.forStmt var iter _) =>
      let (type, s) := (inferType t iter).run p.state
      (s, [(var, (loopVarType type, false))])
  | .expr _ (.forExpr var iter _) =>
      let (type, s) := (inferType t iter).run p.state
      (s, [(var, (type, false))])
  | .stmt (.tryStmt body catches _) =>
      (((checkStmt t body).run p.state).2, catches.map catchEntry)
  | _ => (p.state, [])

end Place

/-- Nothing that a place declares stays visible behind it: what it declares itself was visible
before in the same way, and no `let` or `var` stands in it outside of a block. -/
structure Contained (t : Tables) (p : Place) : Prop where
  wrapped : ∀ body ∈ p.node.loose, (Node.stmt body).declared = none
  harmless : SameVisible (p.declares t).1 (insertAll (p.declares t).1 (p.declares t).2)

/-- The check of a place changes no variable but the one that it declares. -/
def Leaves (t : Tables) (p : Place) : Prop :=
  ∀ name, p.node.declared ≠ some name → (p.after t).lookup name = p.state.lookup name

theorem Leaves.same {p : Place} (leaves : Leaves t p) (wrapped : p.node.declared = none) :
    SameVisible p.state (p.after t) := by
  intro name
  apply leaves name
  rw [wrapped]
  exact (Option.some_ne_none name).symm

theorem Leaves.expr {e : Expr} (leaves : Leaves t ⟨plain e, scope, s⟩) :
    SameVisible s ((inferType t e).run s).2 := by
  have same := leaves.same rfl
  rw [Place.after, run_check_plain] at same
  exact same

theorem Leaves.stmt {body : Stmt} (leaves : Leaves t ⟨.stmt body, scope, s⟩)
    (wrapped : (Node.stmt body).declared = none) :
    SameVisible s ((checkStmt t body).run s).2 :=
  leaves.same wrapped

theorem same_walk (scope : Scope) {nodes : List Node} (wrapped : ∀ node ∈ nodes, node.declared = none)
    (leaves : ∀ q ∈ along t scope s nodes, Leaves t q) :
    SameVisible s ((walk t nodes).run s).2 := by
  induction nodes generalizing s with
  | nil => exact SameVisible.refl s
  | cons node nodes ih =>
      have first := (leaves _ List.mem_cons_self).same (wrapped node List.mem_cons_self)
      exact first.trans (ih (fun other member => wrapped other (List.mem_cons_of_mem node member))
        fun q member => leaves q (List.mem_cons_of_mem _ member))

theorem same_cases (scrutinee : ValueType) (cases : List MatchCase) :
    SameVisible s ((inferCases t scrutinee cases).run s).2 := by
  induction cases generalizing s with
  | nil =>
      rw [inferCases]
      exact SameVisible.refl s
  | cons case cases ih =>
      cases case with
      | mk pattern guard body =>
          rw [inferCases]
          exact SameVisible.trans (fun _ => rfl) ih

theorem same_catchBodies (scope : Scope) {catches : List CatchClause}
    (wrapped : ∀ body ∈ catches.map catchBody, (Node.stmt body).declared = none)
    (leaves : ∀ q ∈ catchBodyParts t scope s catches, Leaves t q) :
    SameVisible s ((checkCatchBodies t catches).run s).2 := by
  induction catches generalizing s with
  | nil =>
      rw [checkCatchBodies]
      exact SameVisible.refl s
  | cons clause catches ih =>
      cases clause with
      | mk param type body =>
          rw [checkCatchBodies]
          have first := (leaves _ List.mem_cons_self).stmt (wrapped body List.mem_cons_self)
          exact first.trans (ih (fun other member => wrapped other (List.mem_cons_of_mem _ member))
            fun q member => leaves q (List.mem_cons_of_mem _ member))

/-- The catch clauses of a try statement declare what they catch, and nothing else. -/
theorem same_catches (scope : Scope) {catches : List CatchClause}
    (wrapped : ∀ body ∈ catches.map catchBody, (Node.stmt body).declared = none)
    (leaves : ∀ q ∈ catchParts t scope s catches, Leaves t q) :
    SameVisible (insertAll s (catches.map catchEntry)) ((checkCatches t catches).run s).2 := by
  induction catches generalizing s with
  | nil =>
      rw [checkCatches]
      exact SameVisible.refl s
  | cons clause catches ih =>
      cases clause with
      | mk param type body =>
          rw [checkCatches]
          have first := (leaves _ List.mem_cons_self).stmt (wrapped body List.mem_cons_self)
          have rest := ih (fun other member => wrapped other (List.mem_cons_of_mem _ member))
            fun q member => leaves q (List.mem_cons_of_mem _ member)
          exact (first.insertAll _).trans rest

theorem same_arms {arms : List SelectArm} (leaves : ∀ q ∈ armParts t scope s arms, Leaves t q) :
    SameVisible s ((checkArms t arms).run s).2 := by
  induction arms generalizing s with
  | nil =>
      rw [checkArms]
      exact SameVisible.refl s
  | cons arm arms ih =>
      cases arm with
      | mk source var body =>
          rw [checkArms]
          have first := (leaves _ List.mem_cons_self).expr
          exact first.trans (SameVisible.trans (fun _ => rfl) (ih fun q member =>
            leaves q (List.mem_cons_of_mem _ (List.mem_cons_of_mem _ member))))

/-- The net effect of a place: its own declarations, and nothing else. -/
structure Net (t : Tables) (p : Place) : Prop where
  before : SameVisible p.state (p.declares t).1
  behind : SameVisible (insertAll (p.declares t).1 (p.declares t).2) (p.after t)

theorem declared_operands (e : Expr) : ∀ node ∈ operands t s e, node.declared = none := by
  intro node member
  rcases smaller_operands e node member with ⟨hints, e', rfl, -⟩
  rfl

theorem declared_plain (exprs : List Expr) :
    ∀ node ∈ exprs.map plain, node.declared = none := by
  intro node member
  rcases List.mem_map.mp member with ⟨e, -, rfl⟩
  rfl

theorem declared_stmts {body : Option Stmt}
    (wrapped : ∀ inner, body = some inner → (Node.stmt inner).declared = none) :
    ∀ node ∈ body.toList.map Node.stmt, node.declared = none := by
  intro node member
  rcases List.mem_map.mp member with ⟨inner, present, rfl⟩
  exact wrapped inner (Option.mem_toList.mp present)

theorem declared_header (cond update : Option Expr) :
    ∀ node ∈ cond.toList.map plain ++ update.toList.map plain, node.declared = none := by
  intro node member
  rcases List.mem_append.mp member with member | member
  all_goals exact declared_plain _ node member

theorem same_option (scope : Scope) {body : Option Stmt} (accepts : Accepts (checkOption t body) s)
    (wrapped : ∀ inner, body = some inner → (Node.stmt inner).declared = none)
    (leaves : ∀ q ∈ along t scope s (body.toList.map .stmt), Leaves t q) :
    SameVisible s ((checkOption t body).run s).2 := by
  rw [visits_checkOption body accepts]
  exact same_walk _ (declared_stmts wrapped) leaves

theorem same_header (scope : Scope) {cond update : Option Expr} (accepts : Accepts (checkHeader t cond update) s)
    (leaves : ∀ q ∈ along t scope s (cond.toList.map plain ++ update.toList.map plain),
      Leaves t q) :
    SameVisible s ((checkHeader t cond update).run s).2 := by
  rw [visits_checkHeader cond update accepts]
  exact same_walk _ (declared_header cond update) leaves

theorem accepts_header {init : Option Stmt} {cond update : Option Expr} {body : Stmt}
    (accepts : Accepts (checkStmt t (.forC init cond update body)) s) :
    Accepts (checkOption t init) s ∧
      Accepts (checkHeader t cond update) ((checkOption t init).run s).2 := by
  rw [checkStmt] at accepts
  rcases accepts_bind.mp accepts with ⟨started, accepts⟩
  have headed : Accepts (do
      checkHeader t cond update
      let _ ← insideLoop (checkStmt t body)
      pure false) ((checkOption t init).run s).2 := accepts
  exact ⟨started, (accepts_bind.mp headed).1⟩

theorem net_along {nodes : List Node} {p : Place}
    (own : p.declares t = (p.state, [])) (walked : p.after t = ((walk t nodes).run p.state).2)
    (wrapped : ∀ node ∈ nodes, node.declared = none)
    (leaves : ∀ q ∈ along t p.scope p.state nodes, Leaves t q) : Net t p := by
  constructor
  · rw [own]
    exact SameVisible.refl _
  · rw [own, walked]
    exact same_walk _ wrapped leaves

theorem net_restored {p : Place} (own : p.declares t = (p.state, []))
    (restored : (p.after t).variableMap = p.state.variableMap) : Net t p := by
  constructor
  · rw [own]
    exact SameVisible.refl _
  · rw [own]
    intro name
    change (p.after t).lookup name = p.state.lookup name
    rw [CheckState.lookup, restored, CheckState.lookup]

theorem net_expr {hints : List ValueType} {e : Expr}
    (accepts : Accepts ((Node.expr hints e).check t) s) (outside : scope.inGuard = false)
    (wrapped : ∀ body ∈ (Node.expr hints e).loose, (Node.stmt body).declared = none)
    (leaves : ∀ q ∈ exprParts t scope s hints e, q.scope.inGuard = false → Leaves t q) :
    Net t ⟨.expr hints e, scope, s⟩ := by
  cases e with
  | lambda params retType body => exact net_restored rfl rfl
  | block stmts =>
      refine net_restored rfl ?_
      change ((inferType t (.block stmts)).run s).2.variableMap = s.variableMap
      rw [inferType]
      rfl
  | whileExpr cond body =>
      have checked : Accepts (inferType t (.whileExpr cond body)) s := accepts
      rw [inferType] at checked
      rcases accepts_bind.mp checked with ⟨first, checked⟩
      rcases accepts_bind.mp checked with ⟨condition, checked⟩
      have conditionLeaves := (leaves _ List.mem_cons_self outside).expr
      have bodyLeaves := (leaves _ (List.mem_cons_of_mem _ List.mem_cons_self) outside).expr
      refine ⟨SameVisible.refl s, ?_⟩
      change SameVisible s ((inferType t (.whileExpr cond body)).run s).2
      rw [inferType, run_bind, run_bind, quiet_checkCondition _ _ condition]
      exact conditionLeaves.trans bodyLeaves
  | forExpr var iter body =>
      have iterLeaves := (leaves _ List.mem_cons_self outside).expr
      have bodyLeaves := (leaves _ (List.mem_cons_of_mem _ List.mem_cons_self) outside).expr
      refine ⟨iterLeaves, ?_⟩
      change SameVisible _ ((inferType t (.forExpr var iter body)).run s).2
      rw [inferType]
      exact bodyLeaves
  | loopExpr body =>
      have bodyLeaves := (leaves _ List.mem_cons_self outside).expr
      refine ⟨SameVisible.refl s, ?_⟩
      change SameVisible s ((inferType t (.loopExpr body)).run s).2
      rw [inferType]
      exact bodyLeaves
  | matchExpr expr cases =>
      have scrutineeLeaves := (leaves _ List.mem_cons_self outside).expr
      refine ⟨SameVisible.refl s, ?_⟩
      change SameVisible s ((inferType t (.matchExpr expr cases)).run s).2
      rw [inferType]
      simp only [run_bind]
      have casesLeave := scrutineeLeaves.trans
        (same_cases (t := t) ((inferType t expr).run s).1 cases)
      split <;> exact casesLeave
  | tryExpr body catches finally_ =>
      have checked : Accepts (inferType t (.tryExpr body catches finally_)) s := accepts
      rw [inferType] at checked
      rcases accepts_bind.mp checked with ⟨-, checked⟩
      rcases accepts_bind.mp checked with ⟨-, checked⟩
      have final := visits_inferOption finally_ (accepts_bind.mp checked).1
      have bodyLeaves := (leaves _ List.mem_cons_self outside).expr
      have catchesLeave := same_catchBodies (t := t) scope wrapped fun q member =>
        leaves q (List.mem_cons_of_mem _ (List.mem_append_left _ member))
          ((SameGuard.catchBodyParts catches q member).trans outside)
      have finalLeaves := same_walk (t := t) scope (declared_plain finally_.toList)
        fun q member => leaves q (List.mem_cons_of_mem _ (List.mem_append_right _ member))
          ((SameGuard.along _ q member).trans outside)
      refine ⟨SameVisible.refl s, ?_⟩
      change SameVisible s ((inferType t (.tryExpr body catches finally_)).run s).2
      rw [inferType]
      simp only [run_bind, run_pure]
      rw [final]
      exact bodyLeaves.trans (catchesLeave.trans finalLeaves)
  | _ =>
      refine net_along rfl (visits_operands rfl accepts) (declared_operands _) fun q member => ?_
      exact leaves q member ((SameGuard.along _ q member).trans outside)

theorem net_stmt {body : Stmt} (accepts : Accepts (checkStmt t body) s)
    (statement : (Node.stmt body).declared = none)
    (wrapped : ∀ inner ∈ (Node.stmt body).loose, (Node.stmt inner).declared = none)
    (leaves : ∀ q ∈ stmtParts t scope s body, Leaves t q) :
    Net t ⟨.stmt body, scope, s⟩ := by
  cases body with
  | letStmt name type value | varStmt name type value =>
      exact absurd statement (Option.some_ne_none name)
  | block stmts =>
      refine net_restored rfl ?_
      change ((checkStmt t (.block stmts)).run s).2.variableMap = s.variableMap
      rw [checkStmt]
      rfl
  | whileStmt cond body =>
      rw [checkStmt] at accepts
      rcases accepts_bind.mp accepts with ⟨first, accepts⟩
      rcases accepts_bind.mp accepts with ⟨condition, accepts⟩
      have conditionLeaves := (leaves _ List.mem_cons_self).expr
      have bodyLeaves := (leaves _ (List.mem_cons_of_mem _ List.mem_cons_self)).stmt
        (wrapped body List.mem_cons_self)
      refine ⟨SameVisible.refl s, ?_⟩
      change SameVisible s ((checkStmt t (.whileStmt cond body)).run s).2
      rw [checkStmt, run_bind, run_bind, quiet_checkCondition _ _ condition]
      exact conditionLeaves.trans bodyLeaves
  | forStmt var iter body =>
      have iterLeaves := (leaves _ List.mem_cons_self).expr
      have bodyLeaves := (leaves _ (List.mem_cons_of_mem _ List.mem_cons_self)).stmt
        (wrapped body List.mem_cons_self)
      refine ⟨iterLeaves, ?_⟩
      change SameVisible _ ((checkStmt t (.forStmt var iter body)).run s).2
      rw [checkStmt]
      exact bodyLeaves
  | loop body =>
      have bodyLeaves := (leaves _ List.mem_cons_self).stmt (wrapped body List.mem_cons_self)
      refine ⟨SameVisible.refl s, ?_⟩
      change SameVisible s ((checkStmt t (.loop body)).run s).2
      rw [checkStmt]
      exact bodyLeaves
  | forC init cond update body =>
      rcases accepts_header accepts with ⟨started, header⟩
      have startLeaves := same_option scope started
        (fun inner present => wrapped inner (List.mem_append_left _ (Option.mem_toList.mpr present)))
        fun q member => leaves q (List.mem_append_left _ (List.mem_append_left _ member))
      have headerLeaves := same_header (init.toList.foldl Scope.behind scope) header
        fun q member => leaves q (List.mem_append_left _ (List.mem_append_right _ member))
      have bodyLeaves := (leaves _ (List.mem_append_right _ List.mem_cons_self)).stmt
        (wrapped body (List.mem_append_right _ List.mem_cons_self))
      rw [← visits_checkHeader cond update header] at bodyLeaves
      refine ⟨SameVisible.refl s, ?_⟩
      change SameVisible s ((checkStmt t (.forC init cond update body)).run s).2
      rw [checkStmt]
      exact startLeaves.trans (headerLeaves.trans bodyLeaves)
  | tryStmt body catches finally_ =>
      rw [checkStmt] at accepts
      rcases accepts_bind.mp accepts with ⟨-, accepts⟩
      rcases accepts_bind.mp accepts with ⟨-, accepts⟩
      have final := visits_checkOption finally_ (accepts_bind.mp accepts).1
      have bodyLeaves := (leaves _ List.mem_cons_self).stmt (wrapped body List.mem_cons_self)
      have catchesDeclare := same_catches (t := t) scope
        (fun inner member =>
          wrapped inner (List.mem_cons_of_mem _ (List.mem_append_left _ member)))
        fun q member => leaves q (List.mem_cons_of_mem _ (List.mem_append_left _ member))
      have finalLeaves := same_walk (t := t) scope
        (declared_stmts fun inner present => wrapped inner (List.mem_cons_of_mem _
          (List.mem_append_right _ (Option.mem_toList.mpr present))))
        fun q member => leaves q (List.mem_cons_of_mem _ (List.mem_append_right _ member))
      refine ⟨bodyLeaves, ?_⟩
      change SameVisible _ ((checkStmt t (.tryStmt body catches finally_)).run s).2
      rw [checkStmt]
      simp only [run_bind, run_pure]
      rw [final]
      exact catchesDeclare.trans finalLeaves
  | select arms default =>
      rw [checkStmt] at accepts
      rcases accepts_bind.mp accepts with ⟨-, accepts⟩
      have final := visits_checkOption default (accepts_bind.mp accepts).1
      have armsLeave := same_arms fun q member => leaves q (List.mem_append_left _ member)
      have finalLeaves := same_walk (t := t) scope
        (declared_stmts fun inner present => wrapped inner (Option.mem_toList.mpr present))
        fun q member => leaves q (List.mem_append_right _ member)
      refine ⟨SameVisible.refl s, ?_⟩
      change SameVisible s ((checkStmt t (.select arms default)).run s).2
      rw [checkStmt]
      simp only [run_bind, run_pure]
      rw [final]
      exact armsLeave.trans finalLeaves
  | deferStmt inner =>
      refine net_along rfl (visits_stmtOperands rfl accepts) (fun node member => ?_) leaves
      rw [stmtOperands, List.mem_singleton] at member
      rw [member]
      exact wrapped inner List.mem_cons_self
  | ifStmt cond thenBranch elseBranch =>
      refine net_along rfl (visits_stmtOperands rfl accepts) (fun node member => ?_) leaves
      rcases List.mem_cons.mp member with rfl | member
      · rfl
      · rcases List.mem_cons.mp member with rfl | member
        · exact wrapped thenBranch List.mem_cons_self
        · exact declared_stmts (fun inner present => wrapped inner
            (List.mem_cons_of_mem _ (Option.mem_toList.mpr present))) node member
  | returnStmt value =>
      exact net_along rfl (visits_stmtOperands rfl accepts) (declared_plain _) leaves
  | assignment target value =>
      exact net_along rfl (visits_stmtOperands rfl accepts) (declared_plain [target, value]) leaves
  | throwStmt value | expr value =>
      exact net_along rfl (visits_stmtOperands rfl accepts) (declared_plain [value]) leaves
  | breakStmt | continueStmt | empty =>
      exact net_along rfl (visits_stmtOperands rfl accepts) (declared_plain []) leaves

theorem Met.net {p : Place} (met : Met t p) (outside : p.scope.inGuard = false)
    (statement : p.node.declared = none)
    (wrapped : ∀ body ∈ p.node.loose, (Node.stmt body).declared = none)
    (leaves : ∀ q ∈ p.parts t, q.scope.inGuard = false → Leaves t q) : Net t p := by
  rcases p with ⟨node, scope, s⟩
  cases node with
  | expr hints e => exact net_expr met.accepts outside wrapped leaves
  | stmt body =>
      exact net_stmt met.accepts statement wrapped fun q member =>
        leaves q member ((SameGuard.stmtParts body q member).trans outside)

theorem leaves_declaration {name : Ident} {mutable : Bool} {type : Option Ty}
    {value : Option Expr} (accepts : Accepts (declaring name mutable (do
      let valueType ← inferOption t value
      declaredType t type valueType)) s)
    (leaves : ∀ q ∈ along t scope s (value.toList.map plain), Leaves t q) {other : Ident}
    (different : name ≠ other) :
    ((declaring name mutable (do
      let valueType ← inferOption t value
      declaredType t type valueType)).run s).2.lookup other = s.lookup other := by
  rcases accepts_declaring.mp accepts with ⟨absent, checked, known⟩
  rcases Option.isSome_iff_exists.mp known with ⟨declared, found⟩
  rw [run_declaring absent found, lookup_insert_other _ _ different.symm,
    visits_declaredType type value checked]
  exact same_walk _ (declared_plain _) leaves other

theorem Met.leaves_declared {p : Place} {name : Ident} (met : Met t p)
    (outside : p.scope.inGuard = false) (declared : p.node.declared = some name)
    (parts : ∀ q ∈ p.parts t, q.scope.inGuard = false → Leaves t q) : Leaves t p := by
  rcases p with ⟨node, scope, s⟩
  intro other different
  have unlike : name ≠ other := fun same => different (declared.trans (congrArg some same))
  have accepts := met.accepts
  cases node with
  | expr hints e => contradiction
  | stmt body =>
      have along : ∀ q ∈ stmtParts t scope s body, Leaves t q := fun q member =>
        parts q member ((SameGuard.stmtParts body q member).trans outside)
      change Accepts (checkStmt t body) s at accepts
      change ((checkStmt t body).run s).2.lookup other = s.lookup other
      cases body with
      | letStmt declaredName type value | varStmt declaredName type value =>
          rw [checkStmt] at accepts ⊢
          cases declared
          exact leaves_declaration (accepts_bind.mp accepts).1 along unlike
      | _ => contradiction

/-- Where nothing stays visible behind the places inside an accepted one, its check changes no
variable but the one that it declares. -/
theorem leaves_of_contained (p : Place) (met : Met t p) (outside : p.scope.inGuard = false)
    (contained : ∀ q, Inside t p q → q.scope.inGuard = false → Contained t q) : Leaves t p := by
  have parts : ∀ q ∈ p.parts t, q.scope.inGuard = false → Leaves t q := by
    intro q member apart
    exact leaves_of_contained q (met.parts q member apart) apart fun r inside =>
      contained r (inside.head member)
  have own := contained p .refl outside
  cases declared : p.node.declared with
  | none =>
      have net := met.net outside declared own.wrapped parts
      intro name _
      exact (net.before.trans (own.harmless.trans net.behind)) name
  | some name => exact met.leaves_declared outside declared parts
termination_by p.node.size
decreasing_by exact size_parts member

/-- The names that are declared around a place, or as fields and variants by registration. -/
def Known (members : List (String × Entry)) (scope : Scope) (name : Ident) : Prop :=
  name ∈ scope.names.map Prod.fst ∨ name ∈ members.map Prod.fst

/-- Every visible variable is declared around the place. -/
def Lexical (members : List (String × Entry)) (scope : Scope) (s : CheckState) : Prop :=
  ∀ name, (s.lookup name).isSome → Known members scope name

namespace Lexical

variable {members : List (String × Entry)}

theorem same (lexical : Lexical members scope s) (same : SameVisible s s') :
    Lexical members scope s' := by
  intro name visible
  rw [same name] at visible
  exact lexical name visible

/-- A name that is declared in the text may be declared in the state. -/
theorem insert (lexical : Lexical members scope s) {name : Ident} (entry : Entry)
    (known : Known members scope name) : Lexical members scope (s.insert name entry) := by
  intro other visible
  by_cases equal : other = name
  · subst equal
    exact known
  · rw [lookup_insert_other _ _ equal] at visible
    exact lexical other visible

theorem bind (lexical : Lexical members scope s) (name : Ident) (binding : Binding) :
    Lexical members (scope.bind name binding) s := by
  intro other visible
  rcases lexical other visible with declared | member
  · exact .inl (List.mem_cons_of_mem name declared)
  · exact .inr member

theorem known_bind (name : Ident) (binding : Binding) :
    Known members (scope.bind name binding) name :=
  .inl List.mem_cons_self

end Lexical

theorem bindClosed_lexical (members : List (String × Entry)) : BindClosed (Lexical members) :=
  fun name _ lexical => (lexical.bind name .fixed).insert _ (Lexical.known_bind name .fixed)

/-- In all places of a list the visible variables are declared around the place. -/
def AllLexical (members : List (String × Entry)) (places : List Place) : Prop :=
  ∀ q ∈ places, Lexical members q.scope q.state

namespace AllLexical

variable {members : List (String × Entry)}

theorem nil : AllLexical members [] := by
  intro q member
  contradiction

theorem cons {p : Place} {places : List Place} (first : Lexical members p.scope p.state)
    (rest : AllLexical members places) : AllLexical members (p :: places) := by
  intro q member
  rcases List.mem_cons.mp member with rfl | member
  · exact first
  · exact rest q member

theorem append {first second : List Place} (before : AllLexical members first)
    (after : AllLexical members second) : AllLexical members (first ++ second) := by
  intro q member
  rcases List.mem_append.mp member with member | member
  · exact before q member
  · exact after q member

theorem along {nodes : List Node} (lexical : Lexical members scope s)
    (wrapped : ∀ node ∈ nodes, node.declared = none)
    (leaves : ∀ q ∈ along t scope s nodes, Leaves t q) :
    AllLexical members (along t scope s nodes) := by
  induction nodes generalizing s with
  | nil => exact nil
  | cons node nodes ih =>
      have first := (leaves _ List.mem_cons_self).same (wrapped node List.mem_cons_self)
      exact cons lexical (ih (lexical.same first)
        (fun other member => wrapped other (List.mem_cons_of_mem node member))
        fun q member => leaves q (List.mem_cons_of_mem _ member))

/-- Behind a statement that changes no variable but the one that it declares. -/
theorem behind {body : Stmt} (lexical : Lexical members scope s)
    (leaves : Leaves t ⟨.stmt body, scope, s⟩) :
    Lexical members (scope.behind body) ((checkStmt t body).run s).2 := by
  cases body with
  | letStmt name type value | varStmt name type value =>
      intro other visible
      by_cases equal : other = name
      · subst equal
        exact .inl List.mem_cons_self
      · have unlike : some name ≠ some other := fun same => equal (Option.some.inj same).symm
        have kept : ((checkStmt t _).run s).2.lookup other = s.lookup other := leaves other unlike
        rw [kept] at visible
        exact (lexical.bind name _) other visible
  | _ => exact lexical.same (leaves.stmt rfl)

theorem blockParts {stmts : List Stmt} (lexical : Lexical members scope s)
    (leaves : ∀ q ∈ blockParts t scope s stmts, Leaves t q) :
    AllLexical members (blockParts t scope s stmts) := by
  induction stmts generalizing scope s with
  | nil => exact nil
  | cons body stmts ih =>
      exact cons lexical (ih (behind lexical (leaves _ List.mem_cons_self)) fun q member =>
        leaves q (List.mem_cons_of_mem _ member))

theorem caseParts {scrutinee : ValueType} {cases : List MatchCase}
    (lexical : Lexical members scope s) :
    AllLexical members (caseParts t scope scrutinee s cases) := by
  induction cases generalizing s with
  | nil => exact nil
  | cons case cases ih =>
      cases case with
      | mk pattern guard body =>
          have inner := bound_bindPatternVars (t := t) (bindClosed_lexical members) lexical scrutinee
            pattern
          refine append ?_ (cons inner (ih (lexical.same fun _ => rfl)))
          intro q member
          rcases List.mem_map.mp member with ⟨guard, -, rfl⟩
          exact inner

theorem catchBodyParts {catches : List CatchClause} (lexical : Lexical members scope s)
    (wrapped : ∀ body ∈ catches.map catchBody, (Node.stmt body).declared = none)
    (leaves : ∀ q ∈ catchBodyParts t scope s catches, Leaves t q) :
    AllLexical members (catchBodyParts t scope s catches) := by
  induction catches generalizing s with
  | nil => exact nil
  | cons clause catches ih =>
      cases clause with
      | mk param type body =>
          have first := (leaves _ List.mem_cons_self).stmt (wrapped body List.mem_cons_self)
          exact cons (lexical.bind param .missed) (ih (lexical.same first)
            (fun other member => wrapped other (List.mem_cons_of_mem _ member))
            fun q member => leaves q (List.mem_cons_of_mem _ member))

theorem catchParts {catches : List CatchClause} (lexical : Lexical members scope s)
    (known : ∀ entry ∈ catches.map catchEntry, Known members scope entry.1)
    (wrapped : ∀ body ∈ catches.map catchBody, (Node.stmt body).declared = none)
    (leaves : ∀ q ∈ catchParts t scope s catches, Leaves t q) :
    AllLexical members (catchParts t scope s catches) := by
  induction catches generalizing s with
  | nil => exact nil
  | cons clause catches ih =>
      cases clause with
      | mk param type body =>
          have first := (leaves _ List.mem_cons_self).stmt (wrapped body List.mem_cons_self)
          have bound := lexical.insert (fromParserType type, false) (known _ List.mem_cons_self)
          refine cons (bound.bind param .fixed) (ih (bound.same first)
            (fun other member => known other (List.mem_cons_of_mem _ member))
            (fun other member => wrapped other (List.mem_cons_of_mem _ member))
            fun q member => leaves q (List.mem_cons_of_mem _ member))

theorem armParts {arms : List SelectArm} (lexical : Lexical members scope s)
    (leaves : ∀ q ∈ armParts t scope s arms, Leaves t q) :
    AllLexical members (armParts t scope s arms) := by
  induction arms generalizing s with
  | nil => exact nil
  | cons arm arms ih =>
      cases arm with
      | mk source var body =>
          have opened := lexical.same (leaves _ List.mem_cons_self).expr
          refine cons lexical (cons (bindClosed_lexical members var .int opened)
            (ih (opened.same fun _ => rfl) fun q member =>
              leaves q (List.mem_cons_of_mem _ (List.mem_cons_of_mem _ member))))

end AllLexical

theorem visible_insertAll {entries : List (String × Entry)} {name : Ident}
    (visible : (s.lookup name).isSome ∨ name ∈ entries.map Prod.fst) :
    ((insertAll s entries).lookup name).isSome := by
  induction entries generalizing s with
  | nil =>
      rcases visible with visible | member
      · exact visible
      · contradiction
  | cons entry entries ih =>
      refine ih (s := s.insert entry.1 entry.2) ?_
      by_cases equal : name = entry.1
      · subst equal
        rw [lookup_insert_self]
        exact .inl rfl
      · rw [lookup_insert_other _ _ equal]
        rcases visible with visible | member
        · exact .inl visible
        · rcases List.mem_cons.mp member with same | member
          · exact absurd same equal
          · exact .inr member

variable {members : List (String × Entry)}

theorem lexical_exprParts {hints : List ValueType} {e : Expr} (outside : scope.inGuard = false)
    (wrapped : ∀ body ∈ (Node.expr hints e).loose, (Node.stmt body).declared = none)
    (leaves : ∀ q ∈ exprParts t scope s hints e, q.scope.inGuard = false → Leaves t q)
    (lexical : Lexical members scope s) : AllLexical members (exprParts t scope s hints e) := by
  cases e with
  | lambda params retType body =>
      have inner := bound_bindParams (bindClosed_lexical members)
        (show Lexical members scope.enterLambda s from lexical) hints params
      exact AllLexical.cons (inner.same fun _ => rfl) AllLexical.nil
  | block stmts =>
      exact AllLexical.blockParts lexical fun q member =>
        leaves q member ((SameGuard.blockParts stmts q member).trans outside)
  | whileExpr cond body =>
      have conditionLeaves := (leaves _ List.mem_cons_self outside).expr
      exact AllLexical.cons lexical (AllLexical.cons (lexical.same conditionLeaves) AllLexical.nil)
  | forExpr var iter body =>
      have iterLeaves := (leaves _ List.mem_cons_self outside).expr
      exact AllLexical.cons lexical (AllLexical.cons
        (bindClosed_lexical members var _ (lexical.same iterLeaves)) AllLexical.nil)
  | loopExpr body => exact AllLexical.cons lexical AllLexical.nil
  | matchExpr expr cases =>
      have scrutineeLeaves := (leaves _ List.mem_cons_self outside).expr
      exact AllLexical.cons lexical (AllLexical.caseParts (lexical.same scrutineeLeaves))
  | tryExpr body catches finally_ =>
      have bodyLeaves := (leaves _ List.mem_cons_self outside).expr
      have catchLeaves : ∀ q ∈ catchBodyParts t scope ((inferType t body).run s).2 catches,
          Leaves t q := fun q member =>
        leaves q (List.mem_cons_of_mem _ (List.mem_append_left _ member))
          ((SameGuard.catchBodyParts catches q member).trans outside)
      have inner := lexical.same bodyLeaves
      refine AllLexical.cons lexical ((AllLexical.catchBodyParts inner wrapped catchLeaves).append ?_)
      refine AllLexical.along (inner.same (same_catchBodies _ wrapped catchLeaves))
        (declared_plain _) fun q member => ?_
      exact leaves q (List.mem_cons_of_mem _ (List.mem_append_right _ member))
        ((SameGuard.along _ q member).trans outside)
  | _ =>
      exact AllLexical.along lexical (declared_operands _) fun q member =>
        leaves q member ((SameGuard.along _ q member).trans outside)

theorem behindOption_of_wrapped {init : Option Stmt}
    (wrapped : ∀ inner, init = some inner → (Node.stmt inner).declared = none) (scope : Scope) :
    init.toList.foldl Scope.behind scope = scope := by
  cases init with
  | none => rfl
  | some inner =>
      have statement := wrapped inner rfl
      cases inner with
      | letStmt name type value | varStmt name type value =>
          exact absurd statement (Option.some_ne_none name)
      | _ => rfl

theorem lexical_stmtParts {body : Stmt} (accepts : Accepts (checkStmt t body) s)
    (contained : Contained t ⟨.stmt body, scope, s⟩)
    (leaves : ∀ q ∈ stmtParts t scope s body, Leaves t q)
    (lexical : Lexical members scope s) : AllLexical members (stmtParts t scope s body) := by
  have wrapped := contained.wrapped
  cases body with
  | block stmts => exact AllLexical.blockParts lexical leaves
  | whileStmt cond body =>
      have conditionLeaves := (leaves _ List.mem_cons_self).expr
      exact AllLexical.cons lexical (AllLexical.cons
        ((lexical.same conditionLeaves).same fun _ => rfl) AllLexical.nil)
  | forStmt var iter body =>
      have iterLeaves := (leaves _ List.mem_cons_self).expr
      exact AllLexical.cons lexical (AllLexical.cons
        ((bindClosed_lexical members var _ (lexical.same iterLeaves)).same fun _ => rfl)
        AllLexical.nil)
  | loop body => exact AllLexical.cons (lexical.same fun _ => rfl) AllLexical.nil
  | forC init cond update body =>
      rcases accepts_header accepts with ⟨started, header⟩
      have statement : ∀ inner, init = some inner → (Node.stmt inner).declared = none :=
        fun inner present => wrapped inner (List.mem_append_left _ (Option.mem_toList.mpr present))
      have unfolded : stmtParts t scope s (.forC init cond update body) =
          along t scope s (init.toList.map .stmt) ++
            along t scope ((checkOption t init).run s).2
              (cond.toList.map plain ++ update.toList.map plain) ++
            [loopPart scope ((walk t (cond.toList.map plain ++ update.toList.map plain)).run
              ((checkOption t init).run s).2).2 body] := by
        rw [stmtParts, behindOption_of_wrapped statement scope]
      rw [unfolded] at leaves ⊢
      have startParts : ∀ q ∈ along t scope s (init.toList.map .stmt), Leaves t q :=
        fun q member => leaves q (List.mem_append_left _ (List.mem_append_left _ member))
      have headerParts : ∀ q ∈ along t scope ((checkOption t init).run s).2
          (cond.toList.map plain ++ update.toList.map plain), Leaves t q := fun q member =>
        leaves q (List.mem_append_left _ (List.mem_append_right _ member))
      have inner := lexical.same (same_option _ started statement startParts)
      have header' := inner.same (same_header _ header headerParts)
      rw [visits_checkHeader cond update header] at header'
      refine AllLexical.append (AllLexical.append ?_ ?_) (AllLexical.cons ?_ AllLexical.nil)
      · exact AllLexical.along lexical (declared_stmts statement) startParts
      · exact AllLexical.along inner (declared_header cond update) headerParts
      · exact header'.same fun _ => rfl
  | tryStmt body catches finally_ =>
      have bodyLeaves := (leaves _ List.mem_cons_self).stmt (wrapped body List.mem_cons_self)
      have catchWrapped : ∀ inner ∈ catches.map catchBody, (Node.stmt inner).declared = none :=
        fun inner member => wrapped inner (List.mem_cons_of_mem _ (List.mem_append_left _ member))
      have catchLeaves : ∀ q ∈ catchParts t scope ((checkStmt t body).run s).2 catches,
          Leaves t q := fun q member =>
        leaves q (List.mem_cons_of_mem _ (List.mem_append_left _ member))
      have inner := lexical.same bodyLeaves
      have harmless : SameVisible ((checkStmt t body).run s).2
          (insertAll ((checkStmt t body).run s).2 (catches.map catchEntry)) := contained.harmless
      have known : ∀ entry ∈ catches.map catchEntry, Known members scope entry.1 := by
        intro entry member
        apply inner entry.1
        rw [← harmless entry.1]
        exact visible_insertAll (.inr (List.mem_map_of_mem member))
      refine AllLexical.cons lexical
        ((AllLexical.catchParts inner known catchWrapped catchLeaves).append ?_)
      have behind := harmless.trans (same_catches _ catchWrapped catchLeaves)
      refine AllLexical.along (inner.same behind) (declared_stmts fun inner present => ?_)
        fun q member => ?_
      · exact wrapped inner (List.mem_cons_of_mem _
          (List.mem_append_right _ (Option.mem_toList.mpr present)))
      · exact leaves q (List.mem_cons_of_mem _ (List.mem_append_right _ member))
  | select arms default =>
      have armLeaves : ∀ q ∈ armParts t scope s arms, Leaves t q := fun q member =>
        leaves q (List.mem_append_left _ member)
      refine (AllLexical.armParts lexical armLeaves).append ?_
      refine AllLexical.along (lexical.same (same_arms armLeaves))
        (declared_stmts fun inner present => wrapped inner (Option.mem_toList.mpr present))
        fun q member => leaves q (List.mem_append_right _ member)
  | deferStmt inner =>
      refine AllLexical.along lexical (fun node member => ?_) leaves
      rw [stmtOperands, List.mem_singleton] at member
      rw [member]
      exact wrapped inner List.mem_cons_self
  | ifStmt cond thenBranch elseBranch =>
      refine AllLexical.along lexical (fun node member => ?_) leaves
      rcases List.mem_cons.mp member with rfl | member
      · rfl
      · rcases List.mem_cons.mp member with rfl | member
        · exact wrapped thenBranch List.mem_cons_self
        · exact declared_stmts (fun inner present => wrapped inner
            (List.mem_cons_of_mem _ (Option.mem_toList.mpr present))) node member
  | returnStmt value | letStmt _ _ value | varStmt _ _ value =>
      exact AllLexical.along lexical (declared_plain _) leaves
  | assignment target value => exact AllLexical.along lexical (declared_plain [target, value]) leaves
  | throwStmt value | expr value => exact AllLexical.along lexical (declared_plain [value]) leaves
  | breakStmt | continueStmt | empty => exact AllLexical.along lexical (declared_plain []) leaves

/-- Where nothing stays visible behind the places in an accepted body, the variables visible
at a place are declared around it. -/
theorem lexical_inside {root p : Place} (met : Met t root)
    (contained : ∀ q, Inside t root q → q.scope.inGuard = false → Contained t q)
    (lexical : Lexical members root.scope root.state) (inside : Inside t root p)
    (outside : p.scope.inGuard = false) : Lexical members p.scope p.state := by
  induction inside with
  | refl => exact lexical
  | tail path member ih =>
      rename_i q r
      have apart := inGuard_parts member outside
      have leaves : ∀ q' ∈ q.parts t, q'.scope.inGuard = false → Leaves t q' := by
        intro q' part outside'
        refine leaves_of_contained q' ((met.inside path apart).parts q' part outside') outside' ?_
        exact fun r' within => contained r' (path.trans (within.head part))
      have own := contained q path apart
      have accepts := (met.inside path apart).accepts
      rcases q with ⟨node, scope, s⟩
      cases node with
      | expr hints e =>
          exact lexical_exprParts apart own.wrapped leaves (ih apart) _ member
      | stmt body =>
          exact lexical_stmtParts accepts own (fun q' part => leaves q' part
            ((SameGuard.stmtParts body q' part).trans apart)) (ih apart) _ member

end Tinox.Check
