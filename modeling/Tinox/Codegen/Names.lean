import Tinox.Syntax.Ast
import Mathlib.Data.List.Forall2
import Mathlib.Data.Option.Defs

/-!
# The generator's walk over the names of a body

`gen_stmt_body` and `gen_expr` visit a function body once, apart from deferred
statements: those are visited again at every exit that replays them.  This file
models the order of the visits and what they do to names, and nothing else.  An
expression that binds and assigns no variable is an `operation` on the
expressions it generates, in the order in which it generates them.

The walk is parametric in an interpretation of the name operations.  The maps
of the generator are one interpretation, lexical scoping is another.
-/

namespace Tinox.Codegen.Names

open Tinox.Syntax (Ident)

/-- Patterns of match arms, by what the generator binds for them. -/
inductive CasePattern where
  /-- Wildcards, literals and variants without payload. -/
  | plain
  /-- An identifier that is no variant. -/
  | binding (name : Ident)
  /-- The identifiers bound by the payload of a variant. -/
  | payload (names : List Ident)
  /-- Patterns for which no code is generated, not even for the arm. -/
  | skipped
  deriving Repr

mutual

/-- Expressions, by their effect on names. -/
inductive Expr where
  | ident (name : Ident)
  | assign (name : Ident) (value : Expr)
  | compoundAssign (name : Ident) (value : Expr)
  /-- `name[index] op= value`. -/
  | compoundIndex (name : Ident) (index value : Expr)
  /-- Every other expression; a lambda reads the variables it captures. -/
  | operation (operands : List Expr)
  | block (stmts : List Stmt)
  | matchExpr (scrutinee : Expr) (cases : List Case)
  | returnExpr (value : Option Expr)

/-- Match arms.  Guards are never generated. -/
inductive Case where
  | mk (pattern : CasePattern) (body : Expr)

/-- Catch clauses. -/
inductive Catch where
  | mk (param : Ident) (body : Stmt)

/-- Statements, by their effect on names. -/
inductive Stmt where
  | expr (value : Expr)
  | letStmt (name : Ident) (value : Option Expr)
  | varStmt (name : Ident) (value : Option Expr)
  | assignment (name : Ident) (value : Expr)
  | ifStmt (cond : Expr) (thenBranch : Stmt) (elseBranch : Option Stmt)
  | whileStmt (cond : Expr) (body : Stmt)
  | forStmt (var : Ident) (iter : Expr) (body : Stmt)
  | forC (init : Option Stmt) (cond update : Option Expr) (body : Stmt)
  | loop (body : Stmt)
  | returnStmt (value : Option Expr)
  /-- `break`, `continue` and the empty statement. -/
  | jump
  | throwStmt (value : Expr)
  | tryStmt (body : Stmt) (catches : List Catch) (finally_ : Option Stmt)
  | deferStmt (stmt : Stmt)
  | block (stmts : List Stmt)

end

/-- The ways in which generated code gets at a variable. -/
inductive AccessKind where
  /-- Its value, as an operand. -/
  | read
  /-- Its value, as the container of a compound element assignment. -/
  | element
  /-- An assignment statement or a compound assignment. -/
  | update
  /-- An assignment expression. -/
  | write
  deriving DecidableEq, Repr

/-- What a walk does at the places that concern names.  A declaration reserves
a slot and then binds the name to it. -/
structure Interp (σ κ : Type) where
  /-- The scope in force. -/
  snapshot : σ → κ
  /-- Return to a scope. -/
  resume : κ → σ → σ
  reserve : Ident → σ → Nat × σ
  bind : Ident → Nat → σ → σ
  /-- The end of an arm that binds an identifier. -/
  forget : Ident → σ → σ
  access : AccessKind → Ident → σ → σ

namespace Interp

variable {σ κ : Type} (I : Interp σ κ)

/-- Reserve and bind in one go. -/
def declare (name : Ident) (s : σ) : σ :=
  I.bind name (I.reserve name s).1 (I.reserve name s).2

end Interp

/-- The part of `GenCtx` that steers the walk.  The innermost defer scope comes
first, and in it the statement deferred last. -/
structure WalkState (σ κ : Type) where
  names : σ
  deferStack : List (List (Stmt × κ))
  inDeferExec : Bool
  /-- The depth of the defer stack at entry of the enclosing try body. -/
  errorCatch : Option Nat
  /-- How many possible throw checks the walk has passed. -/
  points : Nat

section Walk

variable {σ κ : Type} (I : Interp σ κ) (checks : Nat → Bool)

/-- Act on the names only. -/
def WalkState.onNames (f : σ → σ) (w : WalkState σ κ) : WalkState σ κ :=
  { w with names := f w.names }

/-- Run a visit and return to the scope in force before it. -/
def inScope (run : WalkState σ κ → Option (WalkState σ κ)) (w : WalkState σ κ) :
    Option (WalkState σ κ) :=
  (run w).map (WalkState.onNames (I.resume (I.snapshot w.names)))

/-- Visit deferred statements, each in the scope of its `defer`. -/
def replay (run : Stmt → WalkState σ κ → Option (WalkState σ κ)) (deferred : List (Stmt × κ)) :
    WalkState σ κ → Option (WalkState σ κ) :=
  inScope I (deferred.foldlM fun w d => run d.1 (w.onNames (I.resume d.2)))

/-- Visit deferred statements with `in_defer_exec` set. -/
def replayInDefer (run : Stmt → WalkState σ κ → Option (WalkState σ κ))
    (deferred : List (Stmt × κ)) (w : WalkState σ κ) : Option (WalkState σ κ) :=
  (replay I run deferred { w with inDeferExec := true }).map fun w' =>
    { w' with inDeferExec := w.inDeferExec }

/-- The innermost defer scope. -/
def WalkState.innermost (w : WalkState σ κ) : List (Stmt × κ) :=
  w.deferStack.headD []

/-- Empty the innermost defer scope. -/
def WalkState.clearInnermost (w : WalkState σ κ) : WalkState σ κ :=
  match w.deferStack with
  | [] => w
  | _ :: outer => { w with deferStack := [] :: outer }

/-- `gen_defer_scope`. -/
def genDeferScope (run : Stmt → WalkState σ κ → Option (WalkState σ κ)) (w : WalkState σ κ) :
    Option (WalkState σ κ) :=
  replayInDefer I run w.innermost w

/-- `emit_unwind_defers_to`; with depth 0 it is `emit_unwind_defers`. -/
def emitUnwindDefersTo (run : Stmt → WalkState σ κ → Option (WalkState σ κ)) (depth : Nat)
    (w : WalkState σ κ) : Option (WalkState σ κ) :=
  if w.inDeferExec then
    some w
  else
    replayInDefer I run (w.deferStack.take (w.deferStack.length - depth)).flatten w

/-- The unwinding of a thrown error: to the enclosing try of the function, or
out of the function. -/
def unwind (run : Stmt → WalkState σ κ → Option (WalkState σ κ)) (w : WalkState σ κ) :
    Option (WalkState σ κ) :=
  emitUnwindDefersTo I run (w.errorCatch.getD 0) w

/-- `emit_post_stmt_throw_check`, at the points that `checks` selects. -/
def throwCheck (run : Stmt → WalkState σ κ → Option (WalkState σ κ)) (w : WalkState σ κ) :
    Option (WalkState σ κ) :=
  if checks w.points then
    unwind I run { w with points := w.points + 1 }
  else
    some { w with points := w.points + 1 }

/-- An optional visit. -/
def walkOption {α : Type} (run : α → WalkState σ κ → Option (WalkState σ κ)) (visited : Option α)
    (w : WalkState σ κ) : Option (WalkState σ κ) :=
  match visited with
  | none => some w
  | some a => run a w

/-- The replay before a `return` with a value.  It does not set
`in_defer_exec`, and it empties the innermost scope. -/
def replayForReturn (run : Stmt → WalkState σ κ → Option (WalkState σ κ)) (w : WalkState σ κ) :
    Option (WalkState σ κ) :=
  (replay I run w.innermost w).map WalkState.clearInnermost

/-- An arm of a match. -/
def walkCase (runExpr : Expr → WalkState σ κ → Option (WalkState σ κ)) :
    Case → WalkState σ κ → Option (WalkState σ κ)
  | .mk .plain body, w => inScope I (runExpr body) w
  | .mk (.binding name) body, w =>
      inScope I (fun w => (runExpr body (w.onNames (I.declare name))).map
        (WalkState.onNames (I.forget name))) w
  | .mk (.payload names) body, w =>
      inScope I (fun w => runExpr body (w.onNames fun s => names.foldl (fun s n => I.declare n s) s)) w
  | .mk .skipped _, w => some w

/-- A catch clause. -/
def walkCatch (run : Stmt → WalkState σ κ → Option (WalkState σ κ)) :
    Catch → WalkState σ κ → Option (WalkState σ κ)
  | .mk param body, w => inScope I (fun w => run body (w.onNames (I.declare param))) w

/-- Open a defer scope, unless deferred statements are being replayed. -/
def WalkState.pushScope (w : WalkState σ κ) : WalkState σ κ :=
  if w.inDeferExec then w else { w with deferStack := [] :: w.deferStack }

/-- One statement of a block and the throw check behind it. -/
def walkBlockStmt (run : Stmt → WalkState σ κ → Option (WalkState σ κ)) (w : WalkState σ κ)
    (s : Stmt) : Option (WalkState σ κ) := do
  let w ← run s w
  if w.inDeferExec then some w else throwCheck I checks run w

/-- The end of a block: its defer scope is replayed and closed. -/
def walkBlockEnd (run : Stmt → WalkState σ κ → Option (WalkState σ κ)) (w : WalkState σ κ) :
    Option (WalkState σ κ) :=
  if w.inDeferExec then
    some w
  else
    (genDeferScope I run w).map fun w => { w with deferStack := w.deferStack.tail }

/-- Register a deferred statement in the innermost scope. -/
def WalkState.pushDefer (stmt : Stmt) (w : WalkState σ κ) : WalkState σ κ :=
  match w.deferStack with
  | [] => w
  | scope :: outer => { w with deferStack := ((stmt, I.snapshot w.names) :: scope) :: outer }

/-- `gen_try_stmt`. -/
def walkTry (run : Stmt → WalkState σ κ → Option (WalkState σ κ)) (body : Stmt)
    (catches : List Catch) (finally_ : Option Stmt) (w : WalkState σ κ) :
    Option (WalkState σ κ) := do
  let inBody ← inScope I (run body) { w with errorCatch := some w.deferStack.length }
  let afterBody ← throwCheck I checks run inBody
  let afterCatches ← catches.foldlM (fun w c => walkCatch I run c w)
    { afterBody with errorCatch := w.errorCatch }
  let afterFinally ← walkOption (fun s => inScope I (run s)) finally_ afterCatches
  if catches.isEmpty then unwind I run afterFinally else some afterFinally

mutual

/-- `gen_expr`. -/
def walkExpr : Nat → Expr → WalkState σ κ → Option (WalkState σ κ)
  | 0, _, _ => none
  | _ + 1, .ident name, w => some (w.onNames (I.access .read name))
  | fuel + 1, .assign name value, w =>
      (walkExpr fuel value w).map (WalkState.onNames (I.access .write name))
  | fuel + 1, .compoundAssign name value, w =>
      walkExpr fuel value (w.onNames (I.access .update name))
  | fuel + 1, .compoundIndex name index value, w => do
      let w ← walkExpr fuel index w
      walkExpr fuel value (w.onNames (I.access .element name))
  | fuel + 1, .operation operands, w => do
      let w ← operands.foldlM (fun w e => walkExpr fuel e w) w
      throwCheck I checks (walkStmt fuel) w
  | fuel + 1, .block stmts, w =>
      inScope I (stmts.foldlM fun w s => walkStmt fuel s w) w
  | fuel + 1, .matchExpr scrutinee cases, w => do
      let w ← walkExpr fuel scrutinee w
      cases.foldlM (fun w c => walkCase I (walkExpr fuel) c w) w
  | fuel + 1, .returnExpr value, w => do
      let w ← replayForReturn I (walkStmt fuel) w
      walkOption (walkExpr fuel) value w

/-- `gen_stmt_body`. -/
def walkStmt : Nat → Stmt → WalkState σ κ → Option (WalkState σ κ)
  | 0, _, _ => none
  | fuel + 1, .expr value, w => walkExpr fuel value w
  | fuel + 1, .letStmt name value, w =>
      (walkOption (walkExpr fuel) value w).map (WalkState.onNames (I.declare name))
  | fuel + 1, .varStmt name value, w =>
      -- The name gets its new slot before the initialiser is generated.
      let reserved := I.reserve name w.names
      (walkOption (walkExpr fuel) value { w with names := reserved.2 }).map
        (WalkState.onNames (I.bind name reserved.1))
  | fuel + 1, .assignment name value, w =>
      walkExpr fuel value (w.onNames (I.access .update name))
  | fuel + 1, .ifStmt cond thenBranch elseBranch, w => do
      let w ← walkExpr fuel cond w
      let w ← inScope I (walkStmt fuel thenBranch) w
      walkOption (fun s => inScope I (walkStmt fuel s)) elseBranch w
  | fuel + 1, .whileStmt cond body, w => do
      let w ← walkExpr fuel cond w
      inScope I (walkStmt fuel body) w
  | fuel + 1, .forStmt var iter body, w => do
      let w ← walkExpr fuel iter w
      inScope I (fun w => walkStmt fuel body (w.onNames (I.declare var))) w
  | fuel + 1, .forC init cond update body, w =>
      inScope I (fun w => do
        let w ← walkOption (walkStmt fuel) init w
        let w ← walkOption (walkExpr fuel) cond w
        let w ← inScope I (walkStmt fuel body) w
        walkOption (walkExpr fuel) update w) w
  | fuel + 1, .loop body, w => inScope I (walkStmt fuel body) w
  | fuel + 1, .returnStmt (some value), w => do
      let w ← replayForReturn I (walkStmt fuel) w
      walkExpr fuel value w
  | fuel + 1, .returnStmt none, w => genDeferScope I (walkStmt fuel) w
  | _ + 1, .jump, w => some w
  | fuel + 1, .throwStmt value, w => do
      let w ← walkExpr fuel value w
      unwind I (walkStmt fuel) w
  | fuel + 1, .tryStmt body catches finally_, w =>
      walkTry I checks (walkStmt fuel) body catches finally_ w
  | _ + 1, .deferStmt stmt, w => some (w.pushDefer I stmt)
  | fuel + 1, .block stmts, w =>
      inScope I (fun w => do
        let w ← stmts.foldlM (walkBlockStmt I checks (walkStmt fuel)) w.pushScope
        walkBlockEnd I (walkStmt fuel) w) w

end

/-- The walk over the body of a function. -/
def walkBody (fuel : Nat) (body : Stmt) (names : σ) : Option σ :=
  (walkStmt I checks fuel body
    { names, deferStack := [], inDeferExec := false, errorCatch := none, points := 0 }).map
    WalkState.names

end Walk

section Simulation

variable {σ κ τ μ : Type}

/-- What held between two scopes, and of a reserved slot, still holds. -/
def Persists (InScope : κ → μ → σ → τ → Prop) (Reserved : Ident → Nat → σ → τ → Prop)
    (s : σ) (t : τ) (s' : σ) (t' : τ) : Prop :=
  (∀ k m, InScope k m s t → InScope k m s' t') ∧
    ∀ name slot, Reserved name slot s t → Reserved name slot s' t'

/-- A relation between two interpretations that every name operation keeps. -/
structure Simulation (I : Interp σ κ) (J : Interp τ μ) where
  Related : σ → τ → Prop
  InScope : κ → μ → σ → τ → Prop
  Reserved : Ident → Nat → σ → τ → Prop
  snapshot : ∀ {s t}, Related s t → InScope (I.snapshot s) (J.snapshot t) s t
  resume : ∀ {s t k m}, Related s t → InScope k m s t →
    Related (I.resume k s) (J.resume m t) ∧
      Persists InScope Reserved s t (I.resume k s) (J.resume m t)
  reserve : ∀ {s t} name, Related s t →
    (I.reserve name s).1 = (J.reserve name t).1 ∧
      Related (I.reserve name s).2 (J.reserve name t).2 ∧
      Persists InScope Reserved s t (I.reserve name s).2 (J.reserve name t).2 ∧
      Reserved name (I.reserve name s).1 (I.reserve name s).2 (J.reserve name t).2
  bind : ∀ {s t name slot}, Related s t → Reserved name slot s t →
    Related (I.bind name slot s) (J.bind name slot t) ∧
      Persists InScope Reserved s t (I.bind name slot s) (J.bind name slot t)
  forget : ∀ {s t} name, Related s t →
    Related (I.forget name s) (J.forget name t) ∧
      Persists InScope Reserved s t (I.forget name s) (J.forget name t)
  access : ∀ {s t} kind name, Related s t →
    Related (I.access kind name s) (J.access kind name t) ∧
      Persists InScope Reserved s t (I.access kind name s) (J.access kind name t)

namespace Simulation

variable {I : Interp σ κ} {J : Interp τ μ} (S : Simulation I J)

/-- `Persists` for the relations of a simulation. -/
abbrev Later : σ → τ → σ → τ → Prop :=
  Persists S.InScope S.Reserved

variable {s : σ} {t : τ} {w w' : WalkState σ κ} {v v' : WalkState τ μ}
  {f : WalkState σ κ → Option (WalkState σ κ)} {g : WalkState τ μ → Option (WalkState τ μ)}
  {a : Option (WalkState σ κ)} {b : Option (WalkState τ μ)}

theorem later_refl (s : σ) (t : τ) : S.Later s t s t :=
  ⟨fun _ _ h => h, fun _ _ h => h⟩

variable {S}

theorem Later.trans {s' s'' : σ} {t' t'' : τ} (first : S.Later s t s' t')
    (second : S.Later s' t' s'' t'') : S.Later s t s'' t'' :=
  ⟨fun k m h => second.1 k m (first.1 k m h), fun name slot h => second.2 name slot (first.2 name slot h)⟩

variable (S)

/-- Two defer scopes with the same statements and related scopes. -/
def DefersRelated (s : σ) (t : τ) : List (Stmt × κ) → List (Stmt × μ) → Prop :=
  List.Forall₂ fun d e => d.1 = e.1 ∧ S.InScope d.2 e.2 s t

/-- Two walks that are at the same point. -/
structure WalkRelated (w : WalkState σ κ) (v : WalkState τ μ) : Prop where
  names : S.Related w.names v.names
  defers : List.Forall₂ (S.DefersRelated w.names v.names) w.deferStack v.deferStack
  inDeferExec : w.inDeferExec = v.inDeferExec
  errorCatch : w.errorCatch = v.errorCatch
  points : w.points = v.points

/-- Two walks that are at the same point, later than before. -/
def WalkStep (w : WalkState σ κ) (v : WalkState τ μ) (w' : WalkState σ κ) (v' : WalkState τ μ) :
    Prop :=
  S.WalkRelated w' v' ∧ S.Later w.names v.names w'.names v'.names

/-- Two visits that lead walks at the same point to the same point, or both
run out of fuel. -/
def Agrees (f : WalkState σ κ → Option (WalkState σ κ))
    (g : WalkState τ μ → Option (WalkState τ μ)) : Prop :=
  ∀ w v, S.WalkRelated w v → Option.Rel (S.WalkStep w v) (f w) (g v)

variable {S}

theorem DefersRelated.later {s s' : σ} {t t' : τ} {deferred : List (Stmt × κ)}
    {deferred' : List (Stmt × μ)} (related : S.DefersRelated s t deferred deferred')
    (later : S.Later s t s' t') : S.DefersRelated s' t' deferred deferred' :=
  List.Forall₂.imp (fun _ _ h => ⟨h.1, later.1 _ _ h.2⟩) related

theorem WalkStep.trans {w'' : WalkState σ κ} {v'' : WalkState τ μ} (first : S.WalkStep w v w' v')
    (second : S.WalkStep w' v' w'' v'') : S.WalkStep w v w'' v'' :=
  ⟨second.1, first.2.trans second.2⟩

theorem WalkRelated.refl_step (related : S.WalkRelated w v) : S.WalkStep w v w v :=
  ⟨related, S.later_refl _ _⟩

/-- A name operation that keeps the relation keeps it between walks. -/
theorem WalkRelated.onNames {f : σ → σ} {g : τ → τ} (related : S.WalkRelated w v)
    (kept : S.Related (f w.names) (g v.names) ∧ S.Later w.names v.names (f w.names) (g v.names)) :
    S.WalkStep w v (w.onNames f) (v.onNames g) :=
  ⟨{ related with
      names := kept.1
      defers := List.Forall₂.imp (fun _ _ h => h.later kept.2) related.defers }, kept.2⟩

theorem rel_bind (step : Option.Rel (S.WalkStep w v) a b)
    (next : ∀ w' v', S.WalkStep w v w' v' → Option.Rel (S.WalkStep w v) (f w') (g v')) :
    Option.Rel (S.WalkStep w v) (a >>= f) (b >>= g) := by
  cases step with
  | none => exact .none
  | some step => exact next _ _ step

theorem rel_map {f : WalkState σ κ → WalkState σ κ} {g : WalkState τ μ → WalkState τ μ}
    (step : Option.Rel (S.WalkStep w v) a b)
    (next : ∀ w' v', S.WalkStep w v w' v' → S.WalkStep w v (f w') (g v')) :
    Option.Rel (S.WalkStep w v) (a.map f) (b.map g) := by
  cases step with
  | none => exact .none
  | some step => exact .some (next _ _ step)

theorem rel_later (step : S.WalkStep w v w' v') (further : Option.Rel (S.WalkStep w' v') a b) :
    Option.Rel (S.WalkStep w v) a b := by
  cases further with
  | none => exact .none
  | some next => exact .some (step.trans next)

theorem Agrees.after (agrees : S.Agrees f g) (step : S.WalkStep w v w' v') :
    Option.Rel (S.WalkStep w v) (f w') (g v') :=
  rel_later step (agrees w' v' step.1)

theorem agrees_some : S.Agrees some some :=
  fun _ _ related => .some related.refl_step

theorem Agrees.bind {f f' : WalkState σ κ → Option (WalkState σ κ)}
    {g g' : WalkState τ μ → Option (WalkState τ μ)} (first : S.Agrees f g)
    (second : S.Agrees f' g') : S.Agrees (fun w => f w >>= f') (fun v => g v >>= g') :=
  fun w v related => rel_bind (first w v related) fun _ _ step => second.after step

theorem Agrees.foldlM {α : Type} {f : WalkState σ κ → α → Option (WalkState σ κ)}
    {g : WalkState τ μ → α → Option (WalkState τ μ)}
    (agrees : ∀ a, S.Agrees (fun w => f w a) fun v => g v a) (visited : List α) :
    S.Agrees (fun w => visited.foldlM f w) fun v => visited.foldlM g v := by
  induction visited with
  | nil => exact agrees_some
  | cons a visited ih =>
      simp only [List.foldlM_cons]
      exact Agrees.bind (agrees a) ih

theorem Agrees.onNames (agrees : S.Agrees f g) {act : σ → σ} {act' : τ → τ}
    (kept : ∀ {s t}, S.Related s t → S.Related (act s) (act' t) ∧ S.Later s t (act s) (act' t)) :
    S.Agrees (fun w => f (w.onNames act)) fun v => g (v.onNames act') :=
  fun _ _ related => agrees.after (related.onNames (kept related.names))

theorem Agrees.thenNames (agrees : S.Agrees f g) {act : σ → σ} {act' : τ → τ}
    (kept : ∀ {s t}, S.Related s t → S.Related (act s) (act' t) ∧ S.Later s t (act s) (act' t)) :
    S.Agrees (fun w => (f w).map (WalkState.onNames act))
      fun v => (g v).map (WalkState.onNames act') :=
  fun w v related => rel_map (agrees w v related) fun _ _ step =>
    step.trans (step.1.onNames (kept step.1.names))

theorem Agrees.inScope (agrees : S.Agrees f g) : S.Agrees (Names.inScope I f) (Names.inScope J g) :=
  fun w v related => rel_map (agrees w v related) fun _ _ step =>
    step.trans (step.1.onNames (S.resume step.1.names (step.2.1 _ _ (S.snapshot related.names))))

theorem declare_kept (name : Ident) (related : S.Related s t) :
    S.Related (I.declare name s) (J.declare name t) ∧
      S.Later s t (I.declare name s) (J.declare name t) := by
  rcases S.reserve name related with ⟨sameSlot, reserved, later, slot⟩
  have bound := S.bind reserved slot
  rw [Interp.declare, Interp.declare, ← sameSlot]
  exact ⟨bound.1, Later.trans later bound.2⟩

theorem declareAll_kept (names : List Ident) (related : S.Related s t) :
    S.Related (names.foldl (fun s n => I.declare n s) s) (names.foldl (fun t n => J.declare n t) t) ∧
      S.Later s t (names.foldl (fun s n => I.declare n s) s)
        (names.foldl (fun t n => J.declare n t) t) := by
  induction names generalizing s t with
  | nil => exact ⟨related, S.later_refl s t⟩
  | cons name names ih =>
      rcases declare_kept name related with ⟨declared, later⟩
      rcases ih declared with ⟨all, laterAll⟩
      exact ⟨all, Later.trans later laterAll⟩

/-! ### Deferred statements -/

section Replay

variable {run : Stmt → WalkState σ κ → Option (WalkState σ κ)}
  {run' : Stmt → WalkState τ μ → Option (WalkState τ μ)}

variable {deferred : List (Stmt × κ)} {deferred' : List (Stmt × μ)}

theorem foldlM_deferred (agrees : ∀ stmt, S.Agrees (run stmt) (run' stmt))
    (related : S.WalkRelated w v) (defers : S.DefersRelated w.names v.names deferred deferred') :
    Option.Rel (S.WalkStep w v)
      (deferred.foldlM (fun w d => run d.1 (w.onNames (I.resume d.2))) w)
      (deferred'.foldlM (fun v e => run' e.1 (v.onNames (J.resume e.2))) v) := by
  induction deferred generalizing deferred' w v with
  | nil =>
      cases defers
      exact .some related.refl_step
  | cons d deferred ih =>
      cases defers with
      | @cons _ e _ deferred' same rest =>
          rw [List.foldlM_cons, List.foldlM_cons, ← same.1]
          have resumed := related.onNames (S.resume related.names same.2)
          refine rel_bind ((agrees d.1).after resumed) fun w' v' step => ?_
          exact rel_later step (ih step.1 (DefersRelated.later rest step.2))

theorem agrees_replay (agrees : ∀ stmt, S.Agrees (run stmt) (run' stmt))
    (related : S.WalkRelated w v) (defers : S.DefersRelated w.names v.names deferred deferred') :
    Option.Rel (S.WalkStep w v) (replay I run deferred w) (replay J run' deferred' v) :=
  rel_map (foldlM_deferred agrees related defers) fun _ _ step =>
    step.trans (step.1.onNames (S.resume step.1.names (step.2.1 _ _ (S.snapshot related.names))))

/-- Setting the flag of the replay keeps two walks at the same point. -/
theorem WalkRelated.setInDefer (related : S.WalkRelated w v) {flag flag' : Bool}
    (same : flag = flag') :
    S.WalkStep w v { w with inDeferExec := flag } { v with inDeferExec := flag' } :=
  ⟨{ related with inDeferExec := same }, S.later_refl _ _⟩

theorem agrees_replayInDefer (agrees : ∀ stmt, S.Agrees (run stmt) (run' stmt))
    (related : S.WalkRelated w v) (defers : S.DefersRelated w.names v.names deferred deferred') :
    Option.Rel (S.WalkStep w v) (replayInDefer I run deferred w) (replayInDefer J run' deferred' v) := by
  have flagged := related.setInDefer (rfl : true = true)
  refine rel_map (rel_later flagged (agrees_replay agrees flagged.1 defers)) fun _ _ step => ?_
  exact step.trans (step.1.setInDefer related.inDeferExec)

theorem WalkRelated.innermost {w : WalkState σ κ} {v : WalkState τ μ} (related : S.WalkRelated w v) :
    S.DefersRelated w.names v.names w.innermost v.innermost := by
  rcases w with ⟨names, deferStack, inDeferExec, errorCatch, points⟩
  rcases v with ⟨names', deferStack', inDeferExec', errorCatch', points'⟩
  have defers := related.defers
  cases defers with
  | nil => exact .nil
  | cons innermost _ => exact innermost

theorem WalkRelated.clearInnermost (related : S.WalkRelated w v) :
    S.WalkStep w v w.clearInnermost v.clearInnermost := by
  rcases w with ⟨names, deferStack, inDeferExec, errorCatch, points⟩
  rcases v with ⟨names', deferStack', inDeferExec', errorCatch', points'⟩
  have defers := related.defers
  cases defers with
  | nil => exact related.refl_step
  | cons _ outer => exact ⟨{ related with defers := .cons .nil outer }, S.later_refl _ _⟩

theorem agrees_genDeferScope (agrees : ∀ stmt, S.Agrees (run stmt) (run' stmt)) :
    S.Agrees (genDeferScope I run) (genDeferScope J run') :=
  fun _ _ related => agrees_replayInDefer agrees related related.innermost

theorem DefersRelated.flatten {scopes : List (List (Stmt × κ))} {scopes' : List (List (Stmt × μ))}
    (related : List.Forall₂ (S.DefersRelated s t) scopes scopes') :
    S.DefersRelated s t scopes.flatten scopes'.flatten := by
  induction related with
  | nil => exact .nil
  | cons scope _ ih => exact List.rel_append scope ih

theorem agrees_emitUnwindDefersTo (agrees : ∀ stmt, S.Agrees (run stmt) (run' stmt))
    (related : S.WalkRelated w v) (depth : Nat) :
    Option.Rel (S.WalkStep w v) (emitUnwindDefersTo I run depth w)
      (emitUnwindDefersTo J run' depth v) := by
  unfold emitUnwindDefersTo
  rw [← related.inDeferExec, ← related.defers.length_eq]
  split
  · exact .some related.refl_step
  · exact agrees_replayInDefer agrees related
      (DefersRelated.flatten (List.forall₂_take _ related.defers))

theorem agrees_unwind (agrees : ∀ stmt, S.Agrees (run stmt) (run' stmt)) :
    S.Agrees (unwind I run) (unwind J run') := by
  intro w v related
  unfold unwind
  rw [← related.errorCatch]
  exact agrees_emitUnwindDefersTo agrees related _

theorem agrees_throwCheck (checks : Nat → Bool)
    (agrees : ∀ stmt, S.Agrees (run stmt) (run' stmt)) :
    S.Agrees (throwCheck I checks run) (throwCheck J checks run') := by
  intro w v related
  have passed : S.WalkStep w v { w with points := w.points + 1 } { v with points := v.points + 1 } :=
    ⟨{ related with points := congrArg (· + 1) related.points }, S.later_refl _ _⟩
  unfold throwCheck
  rw [← related.points]
  rw [← related.points] at passed
  split
  · exact (agrees_unwind agrees).after passed
  · exact .some passed

theorem agrees_replayForReturn (agrees : ∀ stmt, S.Agrees (run stmt) (run' stmt)) :
    S.Agrees (replayForReturn I run) (replayForReturn J run') :=
  fun _ _ related => rel_map (agrees_replay agrees related related.innermost) fun _ _ step =>
    step.trans step.1.clearInnermost

end Replay

/-! ### Statements and expressions -/

section Forms

variable {run : Stmt → WalkState σ κ → Option (WalkState σ κ)}
  {run' : Stmt → WalkState τ μ → Option (WalkState τ μ)}

theorem agrees_walkOption {α : Type} {visit : α → WalkState σ κ → Option (WalkState σ κ)}
    {visit' : α → WalkState τ μ → Option (WalkState τ μ)}
    (agrees : ∀ a, S.Agrees (visit a) (visit' a)) (visited : Option α) :
    S.Agrees (walkOption visit visited) (walkOption visit' visited) := by
  cases visited with
  | none => exact agrees_some
  | some a => exact agrees a

theorem agrees_walkCase {visit : Expr → WalkState σ κ → Option (WalkState σ κ)}
    {visit' : Expr → WalkState τ μ → Option (WalkState τ μ)}
    (agrees : ∀ e, S.Agrees (visit e) (visit' e)) (c : Case) :
    S.Agrees (walkCase I visit c) (walkCase J visit' c) := by
  rcases c with ⟨pattern, body⟩
  cases pattern with
  | plain => exact (agrees body).inScope
  | binding name =>
      exact (((agrees body).onNames (declare_kept name)).thenNames (S.forget name)).inScope
  | payload names => exact ((agrees body).onNames (declareAll_kept names)).inScope
  | skipped => exact agrees_some

theorem agrees_walkCatch (agrees : ∀ stmt, S.Agrees (run stmt) (run' stmt)) (c : Catch) :
    S.Agrees (walkCatch I run c) (walkCatch J run' c) := by
  rcases c with ⟨param, body⟩
  exact ((agrees body).onNames (declare_kept param)).inScope

theorem WalkRelated.pushScope (related : S.WalkRelated w v) :
    S.WalkStep w v w.pushScope v.pushScope := by
  have opened : S.WalkStep w v { w with deferStack := [] :: w.deferStack }
      { v with deferStack := [] :: v.deferStack } :=
    ⟨{ related with defers := .cons .nil related.defers }, S.later_refl _ _⟩
  rw [WalkState.pushScope, WalkState.pushScope, ← related.inDeferExec]
  cases replaying : w.inDeferExec with
  | true => exact related.refl_step
  | false => rwa [← related.inDeferExec, replaying] at opened

theorem WalkRelated.pushDefer (related : S.WalkRelated w v) (stmt : Stmt) :
    S.WalkStep w v (w.pushDefer I stmt) (v.pushDefer J stmt) := by
  rcases w with ⟨names, deferStack, inDeferExec, errorCatch, points⟩
  rcases v with ⟨names', deferStack', inDeferExec', errorCatch', points'⟩
  have defers := related.defers
  cases defers with
  | nil => exact related.refl_step
  | cons scope outer =>
      have snapshot : S.InScope (I.snapshot names) (J.snapshot names') names names' :=
        S.snapshot related.names
      exact ⟨{ related with defers := .cons (.cons ⟨rfl, snapshot⟩ scope) outer }, S.later_refl _ _⟩

theorem agrees_walkBlockStmt (checks : Nat → Bool)
    (agrees : ∀ stmt, S.Agrees (run stmt) (run' stmt)) (stmt : Stmt) :
    S.Agrees (fun w => walkBlockStmt I checks run w stmt)
      fun v => walkBlockStmt J checks run' v stmt := by
  refine Agrees.bind (agrees stmt) fun w v related => ?_
  rw [← related.inDeferExec]
  split
  · exact .some related.refl_step
  · exact agrees_throwCheck checks agrees w v related

theorem agrees_walkBlockEnd (agrees : ∀ stmt, S.Agrees (run stmt) (run' stmt)) :
    S.Agrees (walkBlockEnd I run) (walkBlockEnd J run') := by
  intro w v related
  unfold walkBlockEnd
  rw [← related.inDeferExec]
  split
  · exact .some related.refl_step
  · refine rel_map (agrees_genDeferScope agrees w v related) fun w' v' step => ?_
    exact step.trans
      ⟨{ step.1 with defers := by simpa using List.forall₂_drop 1 step.1.defers }, S.later_refl _ _⟩

/-- A `var` declaration: its slot stays reserved while the initialiser is
visited. -/
theorem agrees_varStmt {init : WalkState σ κ → Option (WalkState σ κ)}
    {init' : WalkState τ μ → Option (WalkState τ μ)} (agrees : S.Agrees init init') (name : Ident) :
    S.Agrees
      (fun w => (init { w with names := (I.reserve name w.names).2 }).map
        (WalkState.onNames (I.bind name (I.reserve name w.names).1)))
      fun v => (init' { v with names := (J.reserve name v.names).2 }).map
        (WalkState.onNames (J.bind name (J.reserve name v.names).1)) := by
  intro w v related
  rcases S.reserve name related.names with ⟨sameSlot, reserved, later, slot⟩
  have entered : S.WalkStep w v { w with names := (I.reserve name w.names).2 }
      { v with names := (J.reserve name v.names).2 } :=
    ⟨{ related with
        names := reserved
        defers := List.Forall₂.imp (fun _ _ h => h.later later) related.defers }, later⟩
  refine rel_later entered (rel_map (agrees _ _ entered.1) fun w' v' step => ?_)
  rw [← sameSlot]
  exact step.trans (step.1.onNames (S.bind step.1.names (step.2.2 _ _ slot)))

theorem agrees_walkTry (checks : Nat → Bool) (agrees : ∀ stmt, S.Agrees (run stmt) (run' stmt))
    (body : Stmt) (catches : List Catch) (finally_ : Option Stmt) :
    S.Agrees (walkTry I checks run body catches finally_)
      (walkTry J checks run' body catches finally_) := by
  intro w v related
  have entered : S.WalkStep w v { w with errorCatch := some w.deferStack.length }
      { v with errorCatch := some v.deferStack.length } :=
    ⟨{ related with errorCatch := congrArg some related.defers.length_eq }, S.later_refl _ _⟩
  refine rel_bind ((agrees body).inScope.after entered) fun inBody inBody' bodyStep => ?_
  refine rel_bind ((agrees_throwCheck checks agrees).after bodyStep) fun afterBody afterBody' step => ?_
  have left : S.WalkStep w v { afterBody with errorCatch := w.errorCatch }
      { afterBody' with errorCatch := v.errorCatch } :=
    step.trans ⟨{ step.1 with errorCatch := related.errorCatch }, S.later_refl _ _⟩
  refine rel_bind ((Agrees.foldlM (agrees_walkCatch agrees) catches).after left) fun _ _ caught => ?_
  refine rel_bind ((agrees_walkOption (fun s => (agrees s).inScope) finally_).after caught)
    fun _ _ finished => ?_
  split
  · exact (agrees_unwind agrees).after finished
  · exact .some finished

end Forms

theorem agrees_walk (S : Simulation I J) (checks : Nat → Bool) (fuel : Nat) :
    (∀ e, S.Agrees (walkExpr I checks fuel e) (walkExpr J checks fuel e)) ∧
      ∀ s, S.Agrees (walkStmt I checks fuel s) (walkStmt J checks fuel s) := by
  induction fuel with
  | zero =>
      constructor
      · intro e w v _
        cases e <;> exact .none
      · intro s w v _
        cases s <;> exact .none
  | succ fuel ih =>
      rcases ih with ⟨exprs, stmts⟩
      constructor
      · intro e
        cases e with
        | ident name => exact agrees_some.onNames (S.access .read name)
        | assign name value => exact (exprs value).thenNames (S.access .write name)
        | compoundAssign name value => exact (exprs value).onNames (S.access .update name)
        | compoundIndex name index value =>
            exact (exprs index).bind ((exprs value).onNames (S.access .element name))
        | operation operands =>
            exact (Agrees.foldlM exprs operands).bind (agrees_throwCheck checks stmts)
        | block body => exact (Agrees.foldlM stmts body).inScope
        | matchExpr scrutinee cases_ =>
            exact (exprs scrutinee).bind (Agrees.foldlM (agrees_walkCase exprs) cases_)
        | returnExpr value =>
            exact (agrees_replayForReturn stmts).bind (agrees_walkOption exprs value)
      · intro s
        cases s with
        | expr value => exact exprs value
        | letStmt name value => exact (agrees_walkOption exprs value).thenNames (declare_kept name)
        | varStmt name value => exact agrees_varStmt (agrees_walkOption exprs value) name
        | assignment name value => exact (exprs value).onNames (S.access .update name)
        | ifStmt cond thenBranch elseBranch =>
            exact (exprs cond).bind ((stmts thenBranch).inScope.bind
              (agrees_walkOption (fun s => (stmts s).inScope) elseBranch))
        | whileStmt cond body => exact (exprs cond).bind (stmts body).inScope
        | forStmt var iter body =>
            exact (exprs iter).bind ((stmts body).onNames (declare_kept var)).inScope
        | forC init cond update body =>
            exact ((agrees_walkOption stmts init).bind ((agrees_walkOption exprs cond).bind
              ((stmts body).inScope.bind (agrees_walkOption exprs update)))).inScope
        | loop body => exact (stmts body).inScope
        | returnStmt value =>
            cases value with
            | none => exact agrees_genDeferScope stmts
            | some value => exact (agrees_replayForReturn stmts).bind (exprs value)
        | jump => exact agrees_some
        | throwStmt value => exact (exprs value).bind (agrees_unwind stmts)
        | tryStmt body catches finally_ => exact agrees_walkTry checks stmts body catches finally_
        | deferStmt stmt => exact fun _ _ related => .some (related.pushDefer stmt)
        | block body =>
            refine Agrees.inScope fun w v related => ?_
            exact ((Agrees.foldlM (agrees_walkBlockStmt checks stmts) body).bind
              (agrees_walkBlockEnd stmts)).after related.pushScope

end Simulation

end Simulation

end Tinox.Codegen.Names
