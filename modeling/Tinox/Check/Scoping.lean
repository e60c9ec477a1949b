import Tinox.Check.Scopes

/-!
# Lexical scoping

Scoping is lexical in exactly those accepted programs where nothing that a place
declares stays visible behind it.
-/

namespace Tinox.Check

open Tinox.Syntax Check CheckState
open Node (plain run_check_plain)

variable {t : Tables} {scope : Scope} {s s' : CheckState}

/-- A place is checked between two states, and what is visible in one stays visible. -/
structure Between (t : Tables) (s s' : CheckState) (q : Place) : Prop where
  before : Keeps s q.state
  behind : Keeps (q.after t) s'

/-- A statement is one of the places that are checked between two states. -/
def Passes (t : Tables) (s s' : CheckState) (places : List Place) (body : Stmt) : Prop :=
  ∃ q ∈ places, q.node = .stmt body ∧ Between t s s' q

theorem Passes.mono {first second : CheckState} {places others : List Place} {body : Stmt}
    (passes : Passes t s s' places body) (subset : ∀ q ∈ places, q ∈ others)
    (before : Keeps first s) (behind : Keeps s' second) : Passes t first second others body := by
  rcases passes with ⟨q, member, node, between⟩
  exact ⟨q, subset q member, node, before.trans between.before, between.behind.trans behind⟩

theorem passes_along {nodes : List Node} (accepts : Accepts (walk t nodes) s) {body : Stmt}
    (member : Node.stmt body ∈ nodes) :
    Passes t s ((walk t nodes).run s).2 (along t scope s nodes) body := by
  induction nodes generalizing s with
  | nil => contradiction
  | cons node nodes ih =>
      rcases accepts_walk_cons.mp accepts with ⟨first, rest⟩
      rcases List.mem_cons.mp member with same | member
      · exact ⟨⟨node, scope, s⟩, List.mem_cons_self, same.symm, Keeps.refl s, rest.keeps⟩
      · exact (ih rest member).mono (fun q => List.mem_cons_of_mem _) first.keeps (Keeps.refl _)

theorem passes_catchBodyParts (scope : Scope) {catches : List CatchClause}
    (accepts : Accepts (checkCatchBodies t catches) s) {body : Stmt}
    (member : body ∈ catches.map catchBody) :
    Passes t s ((checkCatchBodies t catches).run s).2 (catchBodyParts t scope s catches) body := by
  induction catches generalizing s with
  | nil => contradiction
  | cons clause catches ih =>
      cases clause with
      | mk param type inner =>
          rw [checkCatchBodies] at accepts ⊢
          rcases accepts_bind.mp accepts with ⟨first, rest⟩
          rcases List.mem_cons.mp member with rfl | member
          · exact ⟨_, List.mem_cons_self, rfl, Keeps.refl s, rest.keeps⟩
          · exact (ih rest member).mono (fun q => List.mem_cons_of_mem _) first.keeps
              (Keeps.refl _)

theorem passes_catchParts (scope : Scope) {catches : List CatchClause}
    (accepts : Accepts (checkCatches t catches) s) {body : Stmt}
    (member : body ∈ catches.map catchBody) :
    Passes t s ((checkCatches t catches).run s).2 (catchParts t scope s catches) body := by
  induction catches generalizing s with
  | nil => contradiction
  | cons clause catches ih =>
      cases clause with
      | mk param type inner =>
          rw [checkCatches] at accepts ⊢
          rcases accepts_bind.mp accepts with ⟨bound, accepts⟩
          rcases accepts_bind.mp accepts with ⟨first, rest⟩
          rcases List.mem_cons.mp member with rfl | member
          · exact ⟨_, List.mem_cons_self, rfl, bound.keeps, rest.keeps⟩
          · exact (ih rest member).mono (fun q => List.mem_cons_of_mem _)
              (bound.keeps.trans first.keeps) (Keeps.refl _)

theorem passes_option (scope : Scope) {inner : Option Stmt} (accepts : Accepts (checkOption t inner) s)
    {body : Stmt} (member : body ∈ inner.toList) :
    Passes t s ((checkOption t inner).run s).2 (along t scope s (inner.toList.map .stmt)) body := by
  rw [visits_checkOption inner accepts]
  exact passes_along ((visits_checkOption inner).accepts accepts) (List.mem_map_of_mem member)

theorem passes_stmtParts {outer body : Stmt} (accepts : Accepts (checkStmt t outer) s)
    (loose : body ∈ (Node.stmt outer).loose) :
    Passes t s ((checkStmt t outer).run s).2 (stmtParts t scope s outer) body := by
  cases outer with
  | ifStmt cond thenBranch elseBranch =>
      have operand : Node.stmt body ∈ stmtOperands (.ifStmt cond thenBranch elseBranch) := by
        rcases List.mem_cons.mp loose with rfl | loose
        · exact List.mem_cons_of_mem _ List.mem_cons_self
        · exact List.mem_cons_of_mem _ (List.mem_cons_of_mem _ (List.mem_map_of_mem loose))
      have visits : Walks t (checkStmt t (.ifStmt cond thenBranch elseBranch))
          (stmtOperands (.ifStmt cond thenBranch elseBranch)) s := visits_stmtOperands rfl
      rw [visits accepts]
      exact passes_along (visits.accepts accepts) operand
  | deferStmt inner =>
      have operand : Node.stmt body ∈ stmtOperands (.deferStmt inner) := by
        rw [List.mem_singleton.mp loose]
        exact List.mem_cons_self
      have visits : Walks t (checkStmt t (.deferStmt inner)) (stmtOperands (.deferStmt inner)) s :=
        visits_stmtOperands rfl
      rw [visits accepts]
      exact passes_along (visits.accepts accepts) operand
  | whileStmt cond inner =>
      rw [checkStmt] at accepts ⊢
      rcases accepts_bind.mp accepts with ⟨first, accepts⟩
      rcases accepts_bind.mp accepts with ⟨condition, -⟩
      rw [List.mem_singleton.mp loose, run_bind, run_bind, quiet_checkCondition _ _ condition]
      exact ⟨_, List.mem_cons_of_mem _ List.mem_cons_self, rfl,
        first.keeps.trans (Keeps.of_eq rfl), Keeps.of_eq rfl⟩
  | forStmt var iter inner =>
      rw [checkStmt] at accepts ⊢
      rcases accepts_bind.mp accepts with ⟨first, accepts⟩
      rcases accepts_bind.mp accepts with ⟨bound, -⟩
      rw [List.mem_singleton.mp loose]
      exact ⟨_, List.mem_cons_of_mem _ List.mem_cons_self, rfl,
        first.keeps.trans (bound.keeps.trans (Keeps.of_eq rfl)), Keeps.of_eq rfl⟩
  | loop inner =>
      rw [checkStmt, List.mem_singleton.mp loose]
      exact ⟨_, List.mem_cons_self, rfl, Keeps.of_eq rfl, Keeps.of_eq rfl⟩
  | forC init cond update inner =>
      rcases accepts_header accepts with ⟨started, header⟩
      have walked := visits_checkHeader cond update header
      rw [checkStmt] at accepts ⊢
      have looped : Accepts (do
          let _ ← insideLoop (checkStmt t inner)
          pure false) ((checkHeader t cond update).run ((checkOption t init).run s).2).2 := accepts
      rcases List.mem_append.mp loose with member | member
      · refine (passes_option scope started member).mono (fun q part => ?_)
          (Keeps.refl s) (header.keeps.trans looped.keeps)
        exact List.mem_append_left _ (List.mem_append_left _ part)
      · rw [List.mem_singleton.mp member]
        refine ⟨_, List.mem_append_right _ List.mem_cons_self, rfl, ?_, ?_⟩
        · have entered := started.keeps.trans header.keeps
          rw [walked] at entered
          exact entered.trans (Keeps.of_eq rfl)
        · have behind : ((insideLoop (checkStmt t inner)).run
              ((checkHeader t cond update).run ((checkOption t init).run s).2).2).2.variableMap =
              ((checkStmt t inner).run { ((walk t (cond.toList.map plain ++
                update.toList.map plain)).run ((checkOption t init).run s).2).2 with
                  inLoop := true }).2.variableMap := by
            rw [walked]
            rfl
          exact Keeps.of_eq behind
  | tryStmt inner catches finally_ =>
      rw [checkStmt] at accepts ⊢
      rcases accepts_bind.mp accepts with ⟨first, accepts⟩
      rcases accepts_bind.mp accepts with ⟨caught, accepts⟩
      have final := (accepts_bind.mp accepts).1
      rcases List.mem_cons.mp loose with rfl | loose
      · exact ⟨_, List.mem_cons_self, rfl, Keeps.refl s, caught.keeps.trans final.keeps⟩
      · rcases List.mem_append.mp loose with member | member
        · refine (passes_catchParts scope caught member).mono (fun q part => ?_) first.keeps final.keeps
          exact List.mem_cons_of_mem _ (List.mem_append_left _ part)
        · refine (passes_option scope final member).mono (fun q part => ?_)
            (first.keeps.trans caught.keeps) (Keeps.refl _)
          exact List.mem_cons_of_mem _ (List.mem_append_right _ part)
  | select arms default =>
      rw [checkStmt] at accepts ⊢
      rcases accepts_bind.mp accepts with ⟨handled, accepts⟩
      refine (passes_option scope (accepts_bind.mp accepts).1 loose).mono (fun q part => ?_)
        handled.keeps (Keeps.refl _)
      exact List.mem_append_right _ part
  | _ => contradiction

theorem passes_exprParts {hints : List ValueType} {e : Expr} {body : Stmt}
    (accepts : Accepts ((Node.expr hints e).check t) s) (loose : body ∈ (Node.expr hints e).loose) :
    Passes t s (((Node.expr hints e).check t).run s).2 (exprParts t scope s hints e) body := by
  cases e with
  | tryExpr inner catches finally_ =>
      change Accepts (inferType t (.tryExpr inner catches finally_)) s at accepts
      change Passes t s ((inferType t (.tryExpr inner catches finally_)).run s).2 _ body
      rw [inferType] at accepts ⊢
      rcases accepts_bind.mp accepts with ⟨first, accepts⟩
      rcases accepts_bind.mp accepts with ⟨caught, rest⟩
      refine (passes_catchBodyParts scope caught loose).mono (fun q part => ?_)
        first.keeps rest.keeps
      exact List.mem_cons_of_mem _ (List.mem_append_left _ part)
  | _ => contradiction

theorem sameGuard_of_loose {hints : List ValueType} {e : Expr} {body : Stmt}
    (loose : body ∈ (Node.expr hints e).loose) : SameGuard scope (exprParts t scope s hints e) := by
  cases e with
  | tryExpr inner catches finally_ =>
      exact SameGuard.cons rfl ((SameGuard.catchBodyParts catches).append (SameGuard.along _))
  | _ => contradiction

/-- A declaration that is checked between two states is visible in the second and not in the
first one. -/
theorem Between.new {q : Place} {name : Ident} (between : Between t s s' q) (met : Met t q)
    (declared : q.node.declared = some name) :
    s.lookup name = none ∧ (s'.lookup name).isSome := by
  rcases q with ⟨node, scope, start⟩
  have accepts := met.accepts
  have fresh : start.lookup name = none ∧ (((node.check t).run start).2.lookup name).isSome := by
    cases node with
    | expr hints e => contradiction
    | stmt body =>
        change Accepts (checkStmt t body) start at accepts
        change _ ∧ (((checkStmt t body).run start).2.lookup name).isSome
        cases body with
        | letStmt declaredName type value | varStmt declaredName type value =>
            rw [checkStmt] at accepts ⊢
            cases declared
            rcases accepts_declaring.mp (accepts_bind.mp accepts).1 with ⟨absent, -, known⟩
            rcases Option.isSome_iff_exists.mp known with ⟨found, typed⟩
            refine ⟨absent, ?_⟩
            rw [run_bind, run_declaring absent typed]
            exact Option.isSome_iff_exists.mpr ⟨_, lookup_insert_self _ _ _⟩
        | _ => contradiction
  rcases fresh with ⟨absent, found⟩
  rcases Option.isSome_iff_exists.mp found with ⟨⟨type, mutable⟩, visible⟩
  constructor
  · cases found : s.lookup name with
    | none => rfl
    | some entry =>
        rcases between.before name entry.1 entry.2 found with ⟨_, _, still, -⟩
        exact absurd (still.symm.trans absent) (Option.some_ne_none _)
  · rcases between.behind name type mutable visible with ⟨_, _, still, -⟩
    rw [still]
    rfl

/-- The checks of all places inside one, outside guards, leave the visible variables as they
were, if the places declare nothing. -/
def AllUnchanged (t : Tables) (p : Place) : Prop :=
  ∀ q, Inside t p q → q.scope.inGuard = false → q.node.declared = none →
    SameVisible q.state (q.after t)

theorem AllUnchanged.part {p q : Place} (unchanged : AllUnchanged t p) (member : q ∈ p.parts t) :
    AllUnchanged t q :=
  fun r inside => unchanged r (inside.head member)

theorem AllUnchanged.leaves (p : Place) (unchanged : AllUnchanged t p) (met : Met t p)
    (outside : p.scope.inGuard = false) : Leaves t p := by
  cases declared : p.node.declared with
  | none => exact fun name _ => unchanged p .refl outside declared name
  | some name =>
      refine met.leaves_declared outside declared fun q member apart => ?_
      exact AllUnchanged.leaves q (unchanged.part member) (met.parts q member apart) apart
termination_by p.node.size
decreasing_by exact size_parts member

/-- Where the checks of an accepted place and its parts leave the visible variables alone,
nothing stays visible behind the place. -/
theorem AllUnchanged.contained {p : Place} (unchanged : AllUnchanged t p) (met : Met t p)
    (outside : p.scope.inGuard = false) : Contained t p := by
  have leaves : ∀ q ∈ p.parts t, q.scope.inGuard = false → Leaves t q := fun q member apart =>
    AllUnchanged.leaves q (unchanged.part member) (met.parts q member apart) apart
  cases declared : p.node.declared with
  | some name =>
      rcases p with ⟨node, scope, s⟩
      cases node with
      | expr hints e => contradiction
      | stmt body =>
          cases body with
          | letStmt _ _ _ | varStmt _ _ _ =>
              exact ⟨fun inner loose => (nomatch loose), SameVisible.refl s⟩
          | _ => contradiction
  | none =>
      have own := unchanged p .refl outside declared
      have wrapped : ∀ body ∈ p.node.loose, (Node.stmt body).declared = none := by
        intro body loose
        have passes : Passes t p.state (p.after t) (p.parts t) body ∧
            SameGuard p.scope (p.parts t) := by
          rcases p with ⟨node, scope, s⟩
          cases node with
          | expr hints e => exact ⟨passes_exprParts met.accepts loose, sameGuard_of_loose loose⟩
          | stmt outer => exact ⟨passes_stmtParts met.accepts loose, SameGuard.stmtParts outer⟩
        rcases passes with ⟨⟨q, member, node, between⟩, same⟩
        cases inner : (Node.stmt body).declared with
        | none => rfl
        | some name =>
            have apart := (same q member).trans outside
            have new := between.new (met.parts q member apart) (node ▸ inner)
            rw [own name, new.1] at new
            exact absurd new.2 Bool.false_ne_true
      have net := met.net outside declared wrapped leaves
      exact ⟨wrapped, net.before.symm.trans (own.trans net.behind.symm)⟩

/-- The checker finds a name in the table of variables: as an expression, or as what is
called. -/
def Place.resolves (t : Tables) (p : Place) (name : Ident) : Bool :=
  match p.node with
  | .expr _ (.ident found) => found = name && (p.state.lookup name).isSome
  | .expr _ (.call func _) =>
      calledName func = some name && (t.functions name).isNone && isFnVariable p.state name
  | _ => false

/-- Scoping is lexical: a name that is found in the table of variables is declared around its
place (or is the key of a field or variant), and the check of a statement that declares nothing
leaves the visible variables, their types and their mutability as they were; so does the check
of an expression. -/
structure LexicalScoping (registered : Registered) (file : SourceFile) : Prop where
  resolved : ∀ t p name, Occurs registered file t p → p.scope.inGuard = false →
    p.resolves t name = true → Known registered.members p.scope name
  unchanged : ∀ t p, Occurs registered file t p → p.scope.inGuard = false →
    p.node.declared = none → SameVisible p.state (p.after t)

theorem Place.visible_of_resolves {p : Place} {name : Ident} (resolves : p.resolves t name = true) :
    (p.state.lookup name).isSome := by
  rcases p with ⟨node, scope, s⟩
  cases node with
  | stmt body => contradiction
  | expr hints e =>
      cases e with
      | ident found =>
          have both : (decide (found = name) && (s.lookup name).isSome) = true := resolves
          exact (Bool.and_eq_true_iff.mp both).2
      | call func args =>
          have both : (decide (calledName func = some name) && (t.functions name).isNone &&
              isFnVariable s name) = true := resolves
          have called := (Bool.and_eq_true_iff.mp both).2
          rw [isFnVariable] at called
          cases found : s.lookup name with
          | some entry => rfl
          | none =>
              rw [found] at called
              contradiction
      | _ => contradiction

/-- The parameters of a body are visible in its first state, besides what is registered. -/
theorem lexical_body (body : Body) (s : CheckState) :
    Lexical s.variableMap (body.place s).scope (body.place s).state := by
  have start : Lexical s.variableMap ⟨[], false, false, false⟩ s := by
    intro name visible
    rcases Option.isSome_iff_exists.mp visible with ⟨entry, found⟩
    rcases List.lookup_eq_some_iff.mp found with ⟨before, behind, split, -⟩
    refine .inr (List.mem_map.mpr ⟨(name, entry), ?_, rfl⟩)
    rw [split]
    exact List.mem_append_right before List.mem_cons_self
  have inner := bound_insertParams (bindClosed_lexical s.variableMap) start body.params
  exact inner.same fun _ => rfl

/-- In an accepted program scoping is lexical exactly if nothing that a place declares stays
visible behind it. -/
theorem lexicalScoping_iff (registered : Registered) (annotationErrors : List BodyError)
    (file : SourceFile) (accepts : accepted registered annotationErrors file) :
    LexicalScoping registered file ↔
      ∀ t p, Occurs registered file t p → p.scope.inGuard = false → Contained t p := by
  have inner : ∀ {t p q}, Occurs registered file t p → Inside t p q →
      Occurs registered file t q := by
    rintro t p q ⟨body, member, same, path⟩ inside
    exact ⟨body, member, same, path.trans inside⟩
  constructor
  · intro lexical t p occurs outside
    refine AllUnchanged.contained ?_ (occurs.met accepts outside) outside
    exact fun q inside => lexical.unchanged t q (inner occurs inside)
  · intro contained
    constructor
    · intro t p name occurs outside resolves
      rcases occurs with ⟨body, member, rfl, path⟩
      have met := met_body (accepts_bodies (accepts_bind.mp accepts).1 body member) rfl
      have lexical := lexical_inside met
        (fun q inside => contained body.tables q ⟨body, member, rfl, inside⟩)
        (lexical_body body registered.state) path outside
      exact lexical name (Place.visible_of_resolves resolves)
    · intro t p occurs outside declared name
      refine leaves_of_contained p (occurs.met accepts outside) outside ?_ name ?_
      · exact fun q inside => contained t q (inner occurs inside)
      · rw [declared]
        exact (Option.some_ne_none name).symm

/-- `var x = 1; x;`. -/
theorem lexicalScoping_iff_var :
    LexicalScoping nothingRegistered (mainFile [] .nothing
        [.varStmt "x" none (some (.literal (.integer 1))), .expr (.ident "x")]) ↔
      ∀ t p, Occurs nothingRegistered (mainFile [] .nothing
          [.varStmt "x" none (some (.literal (.integer 1))), .expr (.ident "x")]) t p →
        p.scope.inGuard = false → Contained t p :=
  lexicalScoping_iff nothingRegistered [] _
    (accepted_mainFile (resolveType_nothing _) (by decide))

/-- `for i in [] { } i;`. -/
def loopVariableBehind : SourceFile :=
  mainFile [] .nothing [.forStmt "i" (.arrayLiteral []) (.block []), .expr (.ident "i")]

theorem not_lexicalScoping_loopVariableBehind :
    ¬ ∀ (registered : Registered) (annotationErrors : List BodyError) (file : SourceFile),
      accepted registered annotationErrors file → LexicalScoping registered file := by
  intro claim
  have lexical := claim nothingRegistered [] loopVariableBehind
    (accepted_mainFile (resolveType_nothing _) (by decide))
  have found : ∃ t p, Occurs nothingRegistered loopVariableBehind t p ∧
      p.scope = ⟨[], false, false, false⟩ ∧ p.resolves t "i" = true :=
    ⟨_, _, ⟨_, List.Mem.head _, rfl, (Relation.ReflTransGen.refl.tail
      (List.Mem.tail _ (List.Mem.head _))).tail (List.Mem.head _)⟩, rfl, rfl⟩
  rcases found with ⟨t, p, occurs, scope, resolves⟩
  have known := lexical.resolved t p "i" occurs (by rw [scope]) resolves
  rw [Known, scope] at known
  rcases known with declared | member <;> contradiction

end Tinox.Check
