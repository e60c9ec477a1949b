import Tinox.Check.Places

/-!
# Places of an accepted body

Where a body is accepted, every place in it outside guards is accepted as well,
and the state there fits the text around it: the loop flag stands for a loop of
the same function, and what must not be assigned is known as such.
-/

namespace Tinox.Check

open Tinox.Syntax Check CheckState
open Node (plain run_check_plain)

variable {α : Type} {t : Tables} {scope : Scope} {s : CheckState}

/-- What the state knows about the text around a place. -/
structure Fits (scope : Scope) (s : CheckState) : Prop where
  inLoop : scope.inLambda = false → s.inLoop = true → scope.inLoop = true
  fixed : ∀ name, scope.names.lookup name = some .fixed → ∃ type, s.lookup name = some (type, false)

/-- A place that is checked without an error, in a state that fits. -/
structure Met (t : Tables) (p : Place) : Prop where
  accepts : Accepts (p.node.check t) p.state
  fits : Fits p.scope p.state

namespace Fits

theorem congr {s' : CheckState} (fits : Fits scope s) (variableMap : s'.variableMap = s.variableMap)
    (inLoop : s'.inLoop = s.inLoop) : Fits scope s' := by
  constructor
  · rw [inLoop]
    exact fits.inLoop
  · intro name declared
    rw [CheckState.lookup, variableMap]
    exact fits.fixed name declared

theorem later {m : Check α} (fits : Fits scope s) (accepts : Accepts m s) :
    Fits scope (m.run s).2 := by
  constructor
  · rw [(m.grows s).inLoop]
    exact fits.inLoop
  · intro name declared
    rcases fits.fixed name declared with ⟨type, visible⟩
    rcases accepts.keeps name type false visible with ⟨type', mutable, visible', back⟩
    cases mutable with
    | false => exact ⟨type', visible'⟩
    | true => exact absurd (back rfl) Bool.false_ne_true

theorem bind (fits : Fits scope s) (name : Ident) (binding : Binding) (type : ValueType)
    (mutable : Bool) (agree : binding = .fixed → mutable = false) :
    Fits (scope.bind name binding) (s.insert name (type, mutable)) := by
  constructor
  · exact fits.inLoop
  · intro other declared
    by_cases same : other = name
    · subst same
      have fixed : binding = .fixed := by
        simpa [Scope.bind, List.lookup_cons] using declared
      exact ⟨type, by rw [lookup_insert_self, agree fixed]⟩
    · have unequal : (other == name) = false := beq_false_of_ne same
      rw [lookup_insert_other _ _ same]
      apply fits.fixed other
      simpa only [Scope.bind, List.lookup_cons, unequal, Bool.false_eq_true, ↓reduceIte] using
        declared

theorem bindFixed (fits : Fits scope s) (name : Ident) (type : ValueType) :
    Fits (scope.bind name .fixed) (s.insert name (type, false)) :=
  fits.bind name .fixed type false fun _ => rfl

theorem bindMissed (fits : Fits scope s) (name : Ident) : Fits (scope.bind name .missed) s := by
  constructor
  · exact fits.inLoop
  · intro other declared
    apply fits.fixed other
    cases same : other == name with
    | true => simp [Scope.bind, List.lookup_cons, same] at declared
    | false => simpa [Scope.bind, List.lookup_cons, same] using declared

theorem enterLoop (fits : Fits scope s) : Fits scope.enterLoop s :=
  ⟨fun _ _ => rfl, fits.fixed⟩

theorem enterLambda (fits : Fits scope s) : Fits scope.enterLambda s :=
  ⟨fun outside => Bool.noConfusion outside, fits.fixed⟩

theorem loopPart (fits : Fits scope s) (body : Stmt) :
    Fits (loopPart scope s body).scope (Check.loopPart scope s body).state :=
  ⟨fun _ _ => rfl, fits.fixed⟩

end Fits

/-- What holds again when a name is declared in the text and in the state. -/
def BindClosed (I : Scope → CheckState → Prop) : Prop :=
  ∀ {scope s} (name : Ident) (type : ValueType), I scope s →
    I (scope.bind name .fixed) (s.insert name (type, false))

theorem bindClosed_fits : BindClosed Fits :=
  fun name type fits => fits.bindFixed name type

theorem bindAll_append (scope : Scope) (first second : List Ident) :
    scope.bindAll (first ++ second) = (scope.bindAll first).bindAll second := by
  induction first generalizing scope with
  | nil => rfl
  | cons name names ih => exact ih (scope.bind name .fixed)

section Bound

variable {I : Scope → CheckState → Prop} (closed : BindClosed I)

include closed

theorem bound_bindParams (holds : I scope s) (hints : List ValueType) (params : List Param) :
    I (scope.bindAll (params.map Param.name)) ((bindParams hints params).run s).2 := by
  induction params generalizing scope s hints with
  | nil =>
      rw [bindParams]
      exact holds
  | cons param params ih =>
      rw [bindParams]
      exact ih (closed param.name _ holds) hints.tail

theorem bound_insertParams (holds : I scope s) (params : List (Ident × ValueType)) :
    I (scope.bindAll (params.map Prod.fst)) ((insertParams params).run s).2 := by
  induction params generalizing scope s with
  | nil =>
      rw [insertParams]
      exact holds
  | cons param params ih =>
      rw [insertParams]
      exact ih (closed param.1 param.2 holds)

end Bound

mutual

theorem bound_bindPatternVars {I : Scope → CheckState → Prop} (closed : BindClosed I)
    {scope : Scope} {s : CheckState} (holds : I scope s) (scrutinee : ValueType) :
    (pattern : Pattern) →
      I (scope.bindAll (patternVars pattern)) ((bindPatternVars t scrutinee pattern).run s).2
  | .ident name none => by
      rw [patternVars, bindPatternVars]
      exact closed name scrutinee holds
  | .ident name (some inner) => by
      rw [patternVars, bindPatternVars]
      exact bound_bindPatternVars closed (closed name scrutinee holds) scrutinee inner
  | .enumVariant _ _ args => by
      rw [patternVars, bindPatternVars]
      exact bound_bindAll closed holds _ args
  | .tuple patterns => by
      rw [patternVars, bindPatternVars]
      exact bound_bindAll closed holds [] patterns
  | .wildcard => by
      rw [patternVars, bindPatternVars]
      exact holds
  | .literal _ => by
      rw [patternVars, bindPatternVars]
      exact holds

theorem bound_bindAll {I : Scope → CheckState → Prop} (closed : BindClosed I)
    {scope : Scope} {s : CheckState} (holds : I scope s) (types : List ValueType) :
    (patterns : List Pattern) →
      I (scope.bindAll (allPatternVars patterns))
        ((bindPatternVars.bindAll t types patterns).run s).2
  | [] => by
      rw [allPatternVars, bindPatternVars.bindAll]
      exact holds
  | pattern :: patterns => by
      rw [allPatternVars, bindPatternVars.bindAll, bindAll_append]
      exact bound_bindAll closed (bound_bindPatternVars closed holds _ pattern) types.tail patterns

end

/-- All places of a list outside guards are met. -/
def AllMet (t : Tables) (places : List Place) : Prop :=
  ∀ q ∈ places, q.scope.inGuard = false → Met t q

namespace AllMet

theorem nil : AllMet t [] := by
  intro q member
  contradiction

theorem cons {p : Place} {places : List Place} (first : Met t p) (rest : AllMet t places) :
    AllMet t (p :: places) := by
  intro q member outside
  rcases List.mem_cons.mp member with rfl | member
  · exact first
  · exact rest q member outside

theorem append {first second : List Place} (before : AllMet t first) (after : AllMet t second) :
    AllMet t (first ++ second) := by
  intro q member outside
  rcases List.mem_append.mp member with member | member
  · exact before q member outside
  · exact after q member outside

end AllMet

theorem accepts_walk_cons {node : Node} {nodes : List Node} :
    Accepts (walk t (node :: nodes)) s ↔
      Accepts (node.check t) s ∧ Accepts (walk t nodes) ((node.check t).run s).2 := by
  rw [walk, accepts_bind]

theorem accepts_plain {e : Expr} : Accepts ((plain e).check t) s ↔ Accepts (inferType t e) s := by
  rw [Accepts, run_check_plain, Accepts]

theorem accepts_stmt {body : Stmt} :
    Accepts ((Node.stmt body).check t) s ↔ Accepts (checkStmt t body) s :=
  Iff.rfl

theorem met_along {nodes : List Node} (fits : Fits scope s) (accepts : Accepts (walk t nodes) s) :
    AllMet t (along t scope s nodes) := by
  induction nodes generalizing s with
  | nil => exact AllMet.nil
  | cons node nodes ih =>
      rcases accepts_walk_cons.mp accepts with ⟨first, rest⟩
      exact AllMet.cons ⟨first, fits⟩ (ih (fits.later first) rest)

theorem Walks.accepts {m : Check α} {nodes : List Node} (visits : Walks t m nodes s)
    (accepts : Accepts m s) : Accepts (walk t nodes) s := by
  rw [Accepts, ← visits accepts]
  exact accepts

theorem met_plain {e : Expr} (fits : Fits scope s) (accepts : Accepts (inferType t e) s) :
    Met t ⟨plain e, scope, s⟩ :=
  ⟨accepts_plain.mpr accepts, fits⟩

theorem met_stmt {body : Stmt} (fits : Fits scope s) (accepts : Accepts (checkStmt t body) s) :
    Met t ⟨.stmt body, scope, s⟩ :=
  ⟨accepts_stmt.mpr accepts, fits⟩

theorem fits_behind {body : Stmt} (fits : Fits scope s) (accepts : Accepts (checkStmt t body) s) :
    Fits (scope.behind body) ((checkStmt t body).run s).2 := by
  cases body with
  | letStmt name type value =>
      rw [checkStmt] at accepts ⊢
      have declared := (accepts_bind.mp accepts).1
      rcases accepts_declaring.mp declared with ⟨absent, checked, known⟩
      rcases Option.isSome_iff_exists.mp known with ⟨type, found⟩
      rw [run_bind, run_declaring absent found]
      exact (fits.later checked).bindFixed name type
  | varStmt name type value =>
      rw [checkStmt] at accepts ⊢
      have declared := (accepts_bind.mp accepts).1
      rcases accepts_declaring.mp declared with ⟨absent, checked, known⟩
      rcases Option.isSome_iff_exists.mp known with ⟨type, found⟩
      rw [run_bind, run_declaring absent found]
      exact (fits.later checked).bind name .assignable type true fun wrong => by cases wrong
  | _ => exact fits.later accepts

theorem fits_behindOption {init : Option Stmt} (fits : Fits scope s)
    (accepts : Accepts (checkOption t init) s) :
    Fits (init.toList.foldl Scope.behind scope) ((checkOption t init).run s).2 := by
  cases init with
  | none =>
      rw [checkOption]
      exact fits
  | some body =>
      rw [checkOption] at accepts ⊢
      exact fits_behind fits (accepts_bind.mp accepts).1

theorem run_checkBlock_cons (body : Stmt) (stmts : List Stmt) (s : CheckState) :
    ((checkBlock t (body :: stmts)).run s).2 =
      ((checkBlock t stmts).run ((checkStmt t body).run s).2).2 := by
  cases stmts with
  | cons next stmts =>
      rw [checkBlock]
      · rfl
      · intros
        contradiction
  | nil =>
      cases body with
      | expr value =>
          rw [checkBlock, checkBlock, checkStmt]
          rfl
      | _ => rw [checkBlock]; rfl

theorem run_checkStmts_cons (body : Stmt) (stmts : List Stmt) (s : CheckState) :
    ((checkStmts t (body :: stmts)).run s).2 =
      ((checkStmts t stmts).run ((checkStmt t body).run s).2).2 := by
  cases stmts with
  | nil =>
      rw [checkStmts, checkStmts]
      rfl
  | cons next stmts =>
      rw [checkStmts]
      · rfl
      · intros
        contradiction

theorem met_blockParts {check : List Stmt → Check α}
    (cons : ∀ body stmts s, ((check (body :: stmts)).run s).2 =
      ((check stmts).run ((checkStmt t body).run s).2).2)
    {stmts : List Stmt} (fits : Fits scope s) (accepts : Accepts (check stmts) s) :
    AllMet t (blockParts t scope s stmts) := by
  induction stmts generalizing scope s with
  | nil => exact AllMet.nil
  | cons body stmts ih =>
      have rest : Accepts (check stmts) ((checkStmt t body).run s).2 := by
        rw [Accepts, ← cons]
        exact accepts
      have first : Accepts (checkStmt t body) s := rest.silent
      exact AllMet.cons (met_stmt fits first) (ih (fits_behind fits first) rest)

theorem met_caseParts {scrutinee : ValueType} {cases : List MatchCase} (fits : Fits scope s)
    (accepts : Accepts (inferCases t scrutinee cases) s) :
    AllMet t (caseParts t scope scrutinee s cases) := by
  induction cases generalizing s with
  | nil => exact AllMet.nil
  | cons case cases ih =>
      cases case with
      | mk pattern guard body =>
          rw [inferCases] at accepts
          rcases accepts_bind.mp accepts with ⟨arm, rest⟩
          have inner := bound_bindPatternVars (t := t) bindClosed_fits fits scrutinee pattern
          refine AllMet.append ?_ (AllMet.cons ?_ ?_)
          · intro q member outside
            rcases List.mem_map.mp member with ⟨guard, -, rfl⟩
            exact Bool.noConfusion outside
          · exact met_plain inner (accepts_bind.mp arm).2
          · exact ih (fits.later arm) (accepts_bind.mp rest).1

theorem met_catchBodyParts {catches : List CatchClause} (fits : Fits scope s)
    (accepts : Accepts (checkCatchBodies t catches) s) :
    AllMet t (catchBodyParts t scope s catches) := by
  induction catches generalizing s with
  | nil => exact AllMet.nil
  | cons clause catches ih =>
      cases clause with
      | mk param type body =>
          rw [checkCatchBodies] at accepts
          rcases accepts_bind.mp accepts with ⟨first, rest⟩
          exact AllMet.cons (met_stmt (fits.bindMissed param) first) (ih (fits.later first) rest)

theorem met_catchParts {catches : List CatchClause} (fits : Fits scope s)
    (accepts : Accepts (checkCatches t catches) s) :
    AllMet t (catchParts t scope s catches) := by
  induction catches generalizing s with
  | nil => exact AllMet.nil
  | cons clause catches ih =>
      cases clause with
      | mk param type body =>
          rw [checkCatches] at accepts
          rcases accepts_bind.mp accepts with ⟨bound, accepts⟩
          rcases accepts_bind.mp accepts with ⟨first, rest⟩
          refine AllMet.cons (met_stmt (fits.bindFixed param _) first) (ih ?_ rest)
          exact (fits.later bound).later first

theorem met_armParts {arms : List SelectArm} (fits : Fits scope s)
    (accepts : Accepts (checkArms t arms) s) : AllMet t (armParts t scope s arms) := by
  induction arms generalizing s with
  | nil => exact AllMet.nil
  | cons arm arms ih =>
      cases arm with
      | mk source var body =>
          rw [checkArms] at accepts
          rcases accepts_bind.mp accepts with ⟨opened, accepts⟩
          rcases accepts_bind.mp accepts with ⟨handled, rest⟩
          have inner := fits.later opened
          refine AllMet.cons (met_plain fits opened) (AllMet.cons ?_ (ih ?_ rest))
          · exact met_stmt (inner.bindFixed var .int) (accepts_bind.mp handled).2
          · exact inner.later handled

theorem met_exprParts {hints : List ValueType} {e : Expr} (fits : Fits scope s)
    (accepts : Accepts ((Node.expr hints e).check t) s) :
    AllMet t (exprParts t scope s hints e) := by
  cases e with
  | lambda params retType body =>
      rcases accepts_bind.mp accepts with ⟨-, accepts⟩
      have inner : Fits (scope.enterLambda.bindAll (params.map Param.name)) { ((bindParams hints params).run s).2 with
          currentReturnType := retType.map fromParserType } :=
        (bound_bindParams bindClosed_fits fits.enterLambda hints params).congr rfl rfl
      exact AllMet.cons (met_plain inner (accepts_bind.mp accepts).1) AllMet.nil
  | block stmts =>
      have checked : Accepts (inferType t (.block stmts)) s := accepts
      rw [inferType] at checked
      exact met_blockParts run_checkBlock_cons fits checked
  | whileExpr cond body =>
      have checked : Accepts (inferType t (.whileExpr cond body)) s := accepts
      rw [inferType] at checked
      rcases accepts_bind.mp checked with ⟨first, checked⟩
      rcases accepts_bind.mp checked with ⟨condition, checked⟩
      rw [quiet_checkCondition _ _ condition] at checked
      refine AllMet.cons (met_plain fits first) (AllMet.cons ?_ AllMet.nil)
      exact met_plain (fits.later first).enterLoop (accepts_bind.mp checked).1
  | forExpr var iter body =>
      have checked : Accepts (inferType t (.forExpr var iter body)) s := accepts
      rw [inferType] at checked
      rcases accepts_bind.mp checked with ⟨first, checked⟩
      rcases accepts_bind.mp checked with ⟨-, checked⟩
      refine AllMet.cons (met_plain fits first) (AllMet.cons ?_ AllMet.nil)
      exact met_plain ((fits.later first).bindFixed var _).enterLoop (accepts_bind.mp checked).1
  | loopExpr body =>
      have checked : Accepts (inferType t (.loopExpr body)) s := accepts
      rw [inferType] at checked
      exact AllMet.cons (met_plain fits.enterLoop (accepts_bind.mp checked).1) AllMet.nil
  | matchExpr expr cases =>
      have checked : Accepts (inferType t (.matchExpr expr cases)) s := accepts
      rw [inferType] at checked
      rcases accepts_bind.mp checked with ⟨first, checked⟩
      exact AllMet.cons (met_plain fits first)
        (met_caseParts (fits.later first) (accepts_bind.mp checked).1)
  | tryExpr body catches finally_ =>
      have checked : Accepts (inferType t (.tryExpr body catches finally_)) s := accepts
      rw [inferType] at checked
      rcases accepts_bind.mp checked with ⟨first, checked⟩
      rcases accepts_bind.mp checked with ⟨caught, checked⟩
      have inner := fits.later first
      refine AllMet.cons (met_plain fits first) (AllMet.append (met_catchBodyParts inner caught) ?_)
      exact met_along (inner.later caught)
        ((visits_inferOption finally_).accepts (accepts_bind.mp checked).1)
  | _ => exact met_along fits ((visits_operands rfl).accepts accepts)

theorem met_stmtParts {body : Stmt} (fits : Fits scope s) (accepts : Accepts (checkStmt t body) s) :
    AllMet t (stmtParts t scope s body) := by
  cases body with
  | letStmt name type value | varStmt name type value =>
      rw [checkStmt] at accepts
      rcases accepts_declaring.mp (accepts_bind.mp accepts).1 with ⟨-, checked, -⟩
      exact met_along fits ((visits_declaredType type value).accepts checked)
  | block stmts =>
      rw [checkStmt] at accepts
      exact met_blockParts run_checkStmts_cons fits accepts
  | whileStmt cond body =>
      rw [checkStmt] at accepts
      rcases accepts_bind.mp accepts with ⟨first, accepts⟩
      rcases accepts_bind.mp accepts with ⟨condition, accepts⟩
      rw [quiet_checkCondition _ _ condition] at accepts
      refine AllMet.cons (met_plain fits first) (AllMet.cons ?_ AllMet.nil)
      exact met_stmt ((fits.later first).loopPart body) (accepts_bind.mp accepts).1
  | forStmt var iter body =>
      rw [checkStmt] at accepts
      rcases accepts_bind.mp accepts with ⟨first, accepts⟩
      rcases accepts_bind.mp accepts with ⟨-, accepts⟩
      refine AllMet.cons (met_plain fits first) (AllMet.cons ?_ AllMet.nil)
      exact met_stmt (((fits.later first).bindFixed var _).loopPart body) (accepts_bind.mp accepts).1
  | loop body =>
      rw [checkStmt] at accepts
      exact AllMet.cons (met_stmt (fits.loopPart body) (accepts_bind.mp accepts).1) AllMet.nil
  | forC init cond update body =>
      rw [checkStmt] at accepts
      rcases accepts_bind.mp accepts with ⟨started, accepts⟩
      have headed : Accepts (do
          checkHeader t cond update
          let _ ← insideLoop (checkStmt t body)
          pure false) ((checkOption t init).run s).2 := accepts
      rcases accepts_bind.mp headed with ⟨header, looped⟩
      have inner := fits_behindOption fits started
      refine AllMet.append (AllMet.append ?_ ?_) (AllMet.cons ?_ AllMet.nil)
      · exact met_along fits ((visits_checkOption init).accepts started)
      · exact met_along inner ((visits_checkHeader cond update).accepts header)
      · rw [visits_checkHeader cond update header] at looped
        have walked := inner.later ((visits_checkHeader cond update).accepts header)
        exact met_stmt (walked.loopPart body) (accepts_bind.mp looped).1
  | tryStmt body catches finally_ =>
      rw [checkStmt] at accepts
      rcases accepts_bind.mp accepts with ⟨first, accepts⟩
      rcases accepts_bind.mp accepts with ⟨caught, accepts⟩
      have inner := fits.later first
      refine AllMet.cons (met_stmt fits first) (AllMet.append (met_catchParts inner caught) ?_)
      exact met_along (inner.later caught)
        ((visits_checkOption finally_).accepts (accepts_bind.mp accepts).1)
  | select arms default =>
      rw [checkStmt] at accepts
      rcases accepts_bind.mp accepts with ⟨handled, accepts⟩
      refine AllMet.append (met_armParts fits handled) ?_
      exact met_along (fits.later handled)
        ((visits_checkOption default).accepts (accepts_bind.mp accepts).1)
  | _ => exact met_along fits ((visits_stmtOperands rfl).accepts accepts)

theorem Met.parts {p : Place} (met : Met t p) : AllMet t (p.parts t) := by
  rcases p with ⟨node, scope, s⟩
  cases node with
  | expr hints e => exact met_exprParts met.fits met.accepts
  | stmt body => exact met_stmtParts met.fits met.accepts

/-- All places of a list lie in a guard exactly if the scope does. -/
def SameGuard (scope : Scope) (places : List Place) : Prop :=
  ∀ q ∈ places, q.scope.inGuard = scope.inGuard

theorem inGuard_bindAll (scope : Scope) (names : List Ident) :
    (scope.bindAll names).inGuard = scope.inGuard := by
  induction names generalizing scope with
  | nil => rfl
  | cons name names ih => exact ih (scope.bind name .fixed)

theorem inGuard_behind (scope : Scope) (body : Stmt) :
    (scope.behind body).inGuard = scope.inGuard := by
  cases body <;> rfl

theorem inGuard_behindOption (scope : Scope) (init : Option Stmt) :
    (init.toList.foldl Scope.behind scope).inGuard = scope.inGuard := by
  cases init with
  | none => rfl
  | some init => exact inGuard_behind scope init

namespace SameGuard

theorem nil : SameGuard scope [] := by
  intro q member
  contradiction

theorem cons {p : Place} {places : List Place} (first : p.scope.inGuard = scope.inGuard)
    (rest : SameGuard scope places) : SameGuard scope (p :: places) := by
  intro q member
  rcases List.mem_cons.mp member with rfl | member
  · exact first
  · exact rest q member

theorem append {first second : List Place} (before : SameGuard scope first)
    (after : SameGuard scope second) : SameGuard scope (first ++ second) := by
  intro q member
  rcases List.mem_append.mp member with member | member
  · exact before q member
  · exact after q member

theorem congr {other : Scope} {places : List Place} (guard : SameGuard other places)
    (same : other.inGuard = scope.inGuard) : SameGuard scope places :=
  fun q member => (guard q member).trans same

theorem along (nodes : List Node) : SameGuard scope (along t scope s nodes) := by
  induction nodes generalizing s with
  | nil => exact nil
  | cons node nodes ih => exact cons rfl ih

theorem blockParts (stmts : List Stmt) : SameGuard scope (blockParts t scope s stmts) := by
  induction stmts generalizing scope s with
  | nil => exact nil
  | cons body stmts ih => exact cons rfl (ih.congr (inGuard_behind scope body))

theorem catchBodyParts (catches : List CatchClause) :
    SameGuard scope (catchBodyParts t scope s catches) := by
  induction catches generalizing s with
  | nil => exact nil
  | cons clause catches ih =>
      cases clause with
      | mk param type body => exact cons rfl ih

theorem catchParts (catches : List CatchClause) :
    SameGuard scope (catchParts t scope s catches) := by
  induction catches generalizing s with
  | nil => exact nil
  | cons clause catches ih =>
      cases clause with
      | mk param type body => exact cons rfl ih

theorem armParts (arms : List SelectArm) : SameGuard scope (armParts t scope s arms) := by
  induction arms generalizing s with
  | nil => exact nil
  | cons arm arms ih =>
      cases arm with
      | mk source var body => exact cons rfl (cons rfl ih)

theorem stmtParts (body : Stmt) : SameGuard scope (stmtParts t scope s body) := by
  cases body with
  | block stmts => exact blockParts stmts
  | whileStmt cond body | forStmt var iter body => exact cons rfl (cons rfl nil)
  | loop body => exact cons rfl nil
  | forC init cond update body =>
      have inner := inGuard_behindOption scope init
      exact append (append (along _) ((along _).congr inner)) (cons inner nil)
  | tryStmt body catches finally_ => exact cons rfl (append (catchParts catches) (along _))
  | select arms default => exact append (armParts arms) (along _)
  | _ => exact along _

end SameGuard

theorem inGuard_caseParts {scrutinee : ValueType} {cases : List MatchCase} {q : Place}
    (member : q ∈ caseParts t scope scrutinee s cases) :
    q.scope.inGuard = scope.inGuard ∨ q.scope.inGuard = true := by
  induction cases generalizing s with
  | nil => contradiction
  | cons case cases ih =>
      cases case with
      | mk pattern guard body =>
          rcases List.mem_append.mp member with member | member
          · rcases List.mem_map.mp member with ⟨guard, -, rfl⟩
            exact .inr rfl
          · rcases List.mem_cons.mp member with rfl | member
            · exact .inl (inGuard_bindAll _ _)
            · exact ih member

theorem inGuard_exprParts {hints : List ValueType} {e : Expr} {q : Place}
    (member : q ∈ exprParts t scope s hints e) :
    q.scope.inGuard = scope.inGuard ∨ q.scope.inGuard = true := by
  cases e with
  | lambda params retType body =>
      rw [List.mem_singleton.mp member]
      exact .inl (inGuard_bindAll _ _)
  | block stmts => exact .inl (SameGuard.blockParts stmts q member)
  | whileExpr cond body =>
      have same : SameGuard scope (exprParts t scope s hints (.whileExpr cond body)) :=
        SameGuard.cons rfl (SameGuard.cons rfl SameGuard.nil)
      exact .inl (same q member)
  | forExpr var iter body =>
      have same : SameGuard scope (exprParts t scope s hints (.forExpr var iter body)) :=
        SameGuard.cons rfl (SameGuard.cons rfl SameGuard.nil)
      exact .inl (same q member)
  | loopExpr body => exact .inl (SameGuard.cons rfl SameGuard.nil q member)
  | matchExpr expr cases =>
      rcases List.mem_cons.mp member with rfl | member
      · exact .inl rfl
      · exact inGuard_caseParts member
  | tryExpr body catches finally_ =>
      exact .inl (SameGuard.cons rfl
        ((SameGuard.catchBodyParts catches).append (SameGuard.along _)) q member)
  | _ => exact .inl (SameGuard.along _ q member)

theorem inGuard_parts {p q : Place} (member : q ∈ p.parts t) (outside : q.scope.inGuard = false) :
    p.scope.inGuard = false := by
  rcases p with ⟨node, scope, s⟩
  cases node with
  | expr hints e =>
      rcases inGuard_exprParts member with same | guard
      · exact same.symm.trans outside
      · exact absurd (guard.symm.trans outside) Bool.false_ne_true.symm
  | stmt body => exact (SameGuard.stmtParts body q member).symm.trans outside

theorem Met.inside {root p : Place} (met : Met t root) (inside : Inside t root p)
    (outside : p.scope.inGuard = false) : Met t p := by
  induction inside with
  | refl => exact met
  | tail _ member ih => exact (ih (inGuard_parts member outside)).parts _ member outside

theorem quiet_inScope (m : Check α) : Quiet (inScope m) := by
  intro s accepts
  have grows := m.grows s
  have silent := Accepts.silent accepts
  rw [Accepts] at accepts
  cases s with
  | mk variableMap inLoop returnType errors =>
      change CheckState.mk variableMap _ _ _ = _
      rw [grows.inLoop, grows.returnType]
      exact congrArg _ (accepts.trans silent.symm)

theorem quiet_checkParams (className method : String) (index : Nat)
    (found required : List (String × ValueType)) :
    Quiet (checkParams t className method index found required) := by
  induction found generalizing index required with
  | nil => exact Quiet.pure ()
  | cons param found ih =>
      cases required with
      | nil => exact Quiet.pure ()
      | cons other required => exact (Quiet.require _ _).bind fun _ => ih (index + 1) required

theorem quiet_checkRequired (className iface : String) (required : String × Signature) :
    Quiet (checkRequired t className iface required) := by
  rw [checkRequired]
  dsimp only
  split
  · split
    · exact Quiet.report _
    · exact (quiet_checkParams _ _ _ _ _).bind fun _ => Quiet.require _ _
  · exact Quiet.report _

theorem quiet_checkDecl (interfaces : String → Option Methods) (decl : Decl) :
    Quiet (checkDecl t interfaces decl) := by
  cases decl with
  | function f => exact quiet_inScope _
  | class_ c =>
      refine Quiet.bind (Quiet.forM _ fun method => quiet_inScope _) fun _ => ?_
      exact Quiet.forM _ fun iface => Quiet.forM _ fun required => quiet_checkRequired _ _ _
  | _ => exact Quiet.pure ()

theorem accepts_forM {γ : Type} {items : List γ} {f : γ → Check Unit}
    (quiet : ∀ item, Quiet (f item)) (accepts : Accepts (items.forM f) s) :
    ∀ item ∈ items, Accepts (f item) s := by
  induction items with
  | nil =>
      intro item member
      contradiction
  | cons first items ih =>
      rcases accepts_bind.mp accepts with ⟨before, rest⟩
      rw [quiet first s before] at rest
      intro item member
      rcases List.mem_cons.mp member with rfl | member
      · exact before
      · exact ih rest item member

theorem accepts_declBodies {interfaces : String → Option Methods} {decl : Decl}
    (accepts : Accepts (checkDecl t interfaces decl) s) :
    ∀ body ∈ declBodies t decl, Accepts (checkBody body) s := by
  intro body member
  cases decl with
  | function f =>
      rw [declBodies, List.mem_singleton] at member
      rw [member]
      exact accepts
  | class_ c =>
      rcases List.mem_map.mp member with ⟨method, declared, rfl⟩
      exact accepts_forM (fun method => quiet_inScope _) (accepts_bind.mp accepts).1 method declared
  | _ => contradiction

theorem accepts_bodies {interfaces : String → Option Methods} {decls : List Decl}
    (accepts : Accepts (checkDecls interfaces t decls) s) :
    ∀ body ∈ bodies t decls, Accepts (checkBody body) s := by
  induction decls generalizing t with
  | nil =>
      intro body member
      contradiction
  | cons decl decls ih =>
      rcases accepts_bind.mp accepts with ⟨first, rest⟩
      rw [quiet_checkDecl interfaces decl s first] at rest
      intro body member
      rcases List.mem_append.mp member with member | member
      · exact accepts_declBodies first body member
      · exact ih rest body member

theorem met_body {body : Body} (accepts : Accepts (checkBody body) s) (outside : s.inLoop = false) :
    Met body.tables (body.place s) := by
  rcases accepts_bind.mp accepts with ⟨-, accepts⟩
  refine ⟨(accepts_bind.mp accepts).1, ?_⟩
  have start : Fits ⟨[], false, false, false⟩ s := by
    constructor
    · intro _ inLoop
      exact absurd (inLoop.symm.trans outside) Bool.false_ne_true.symm
    · intro name declared
      contradiction
  exact (bound_insertParams bindClosed_fits start body.params).congr rfl rfl

/-- A place in a body of a program. -/
structure Occurs (registered : Registered) (file : SourceFile) (t : Tables) (p : Place) : Prop where
  occurs : ∃ body ∈ bodies registered.tables (flattenDecls file),
    body.tables = t ∧ Inside t (body.place registered.state) p

theorem Occurs.met {registered : Registered} {annotationErrors : List BodyError}
    {file : SourceFile} {p : Place} (occurs : Occurs registered file t p)
    (accepts : accepted registered annotationErrors file) (outside : p.scope.inGuard = false) :
    Met t p := by
  rcases occurs.occurs with ⟨body, member, rfl, inside⟩
  have checked := accepts_bodies (accepts_bind.mp accepts).1 body member
  exact (met_body checked rfl).inside inside outside

end Tinox.Check
