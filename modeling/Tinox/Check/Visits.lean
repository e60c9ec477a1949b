import Tinox.Check.Infer

/-!
# What a check visits

An accepted check of an expression changes the state as the checks of its
operands do, one after the other: what it looks at besides only reports errors.
-/

namespace Tinox.Check

open Tinox.Syntax Check CheckState

variable {α β : Type}

variable {m : Check α} {f : α → Check β} {error : BodyError}

namespace Check

/-- A part of a check behind which no error is reported. -/
def Accepts (m : Check α) (s : CheckState) : Prop :=
  (m.run s).2.errors = []

variable {s : CheckState} {mutable : Bool}

theorem Accepts.silent (accepts : Accepts m s) : s.errors = [] :=
  (m.grows s).silent accepts

theorem Accepts.keeps (accepts : Accepts m s) : Keeps s (m.run s).2 :=
  (m.grows s).keeps accepts

@[simp]
theorem accepts_bind : Accepts (m >>= f) s ↔ Accepts m s ∧ Accepts (f (m.run s).1) (m.run s).2 := by
  constructor
  · intro accepts
    exact ⟨((f (m.run s).1).grows (m.run s).2).silent accepts, accepts⟩
  · exact And.right

@[simp]
theorem accepts_pure {a : α} : Accepts (pure a : Check α) s ↔ s.errors = [] :=
  Iff.rfl

@[simp]
theorem accepts_report : ¬ Accepts (report error) s := by
  simp [Accepts, report]

@[simp]
theorem accepts_require {condition : Bool} :
    Accepts (require condition error) s ↔ condition = true ∧ s.errors = [] := by
  cases condition <;> simp [require]

theorem errors_finishDeclaration {name : String} {type : Option ValueType} :
    (finishDeclaration name mutable type s).errors = [] ↔ s.errors = [] ∧ type.isSome := by
  cases type <;> simp [finishDeclaration, CheckState.insert]

theorem accepts_declaring {name : String} {type : Check (Option ValueType)} :
    Accepts (declaring name mutable type) s ↔
      s.lookup name = none ∧ Accepts type s ∧ (type.run s).1.isSome := by
  have started : s.lookup name = none → startDeclaration name s = s := fun absent => by
    rw [startDeclaration, absent]
    rfl
  constructor
  · intro accepts
    rcases errors_finishDeclaration.mp accepts with ⟨checked, known⟩
    have absent := lookup_of_startDeclaration ((type.grows _).silent checked)
    rw [started absent] at checked known
    exact ⟨absent, checked, known⟩
  · rintro ⟨absent, checked, known⟩
    refine errors_finishDeclaration.mpr ?_
    rw [started absent]
    exact ⟨checked, known⟩

theorem run_declaring {name : String} {type : Check (Option ValueType)} {declared : ValueType}
    (absent : s.lookup name = none) (known : (type.run s).1 = some declared) :
    ((declaring name mutable type).run s).2 = (type.run s).2.insert name (declared, mutable) := by
  have started : startDeclaration name s = s := by
    rw [startDeclaration, absent]
    rfl
  change finishDeclaration name mutable _ _ = _
  rw [started, known]
  rfl

end Check

/-- What is checked: an expression, with hints for the parameters if it is a lambda, or a
statement. -/
inductive Node where
  | expr (hints : List ValueType) (e : Expr)
  | stmt (stmt : Stmt)

namespace Node

/-- The check of a node. -/
def check (t : Tables) : Node → Check Unit
  | .expr hints (.lambda params retType body) =>
      inScope (do
        bindParams hints params
        let _ ← returning (retType.map fromParserType) (inferType t body)
        pure ())
  | .expr _ e => do
      let _ ← inferType t e
      pure ()
  | .stmt body => do
      let _ ← checkStmt t body
      pure ()

/-- Expressions for which there are no hints. -/
abbrev plain (e : Expr) : Node :=
  .expr [] e

theorem run_check_plain (t : Tables) (e : Expr) (s : CheckState) :
    (((plain e).check t).run s).2 = ((inferType t e).run s).2 := by
  cases e <;> rfl

end Node

open Node (plain run_check_plain)

/-- Nodes that are checked one after the other. -/
def walk (t : Tables) : List Node → Check Unit
  | [] => pure ()
  | node :: nodes => do
      node.check t
      walk t nodes

theorem run_walk_append (t : Tables) (first second : List Node) (s : CheckState) :
    ((walk t (first ++ second)).run s).2 = ((walk t second).run ((walk t first).run s).2).2 := by
  induction first generalizing s with
  | nil => rfl
  | cons node nodes ih => exact ih _

/-! ## Checks that visit nodes -/

/-- If the check is accepted, then it changes the state as the checks of the nodes do. -/
def Walks (t : Tables) (m : Check α) (nodes : List Node) (s : CheckState) : Prop :=
  Accepts m s → (m.run s).2 = ((walk t nodes).run s).2

/-- A part of a check that only reports errors. -/
def Quiet (m : Check α) : Prop :=
  ∀ s, Accepts m s → (m.run s).2 = s

namespace Quiet

theorem pure (a : α) : Quiet (Pure.pure a : Check α) :=
  fun _ _ => rfl

theorem state : Quiet Check.state :=
  fun _ _ => rfl

theorem report (error : BodyError) : Quiet (Check.report error) :=
  fun _ accepts => absurd accepts accepts_report

theorem require (condition : Bool) (error : BodyError) :
    Quiet (Check.require condition error) := by
  cases condition
  · exact report error
  · exact pure ()

theorem bind {m : Check α} {f : α → Check β} (first : Quiet m) (next : ∀ a, Quiet (f a)) :
    Quiet (m >>= f) := by
  intro s accepts
  rcases accepts_bind.mp accepts with ⟨before, after⟩
  rw [run_bind, next _ _ after, first s before]

theorem forM {γ : Type} (items : List γ) {f : γ → Check Unit} (each : ∀ item, Quiet (f item)) :
    Quiet (items.forM f) := by
  induction items with
  | nil => exact pure ()
  | cons item items ih => exact bind (each item) fun _ => ih

theorem optionForM {γ : Type} (item : Option γ) {f : γ → Check Unit}
    (each : ∀ item, Quiet (f item)) : Quiet (item.forM f) := by
  cases item with
  | none => exact pure ()
  | some item => exact each item

end Quiet

theorem quiet_checkBinaryOp (op : BinaryOp) (lhs rhs : ValueType) : Quiet (checkBinaryOp op lhs rhs) :=
  Quiet.require _ _

theorem quiet_checkUnaryOp (op : UnaryOp) (operand : ValueType) : Quiet (checkUnaryOp op operand) :=
  Quiet.require _ _

theorem quiet_checkCondition (type : ValueType) : Quiet (checkCondition type) :=
  Quiet.require _ _

theorem quiet_checkMemberVisibility (t : Tables) (className member : String)
    (visibility : Visibility) : Quiet (checkMemberVisibility t className member visibility) :=
  Quiet.require _ _

theorem quiet_checkFieldVisibility (t : Tables) (className field : String) :
    Quiet (checkFieldVisibility t className field) := by
  rw [checkFieldVisibility]
  split
  · exact quiet_checkMemberVisibility t _ _ _
  · exact Quiet.pure ()

theorem quiet_checkMethodVisibility (t : Tables) (className method : String) :
    Quiet (checkMethodVisibility t className method) := by
  rw [checkMethodVisibility]
  split
  · exact quiet_checkMemberVisibility t _ _ _
  · exact Quiet.pure ()

theorem quiet_checkArgument (t : Tables) (expected found : ValueType) :
    Quiet (checkArgument t expected found) :=
  Quiet.require _ _

theorem quiet_checkStaticCount (t : Tables) (key : String) (signature : Signature) (found : Nat) :
    Quiet (checkStaticCount t key signature found) :=
  Quiet.require _ _

theorem quiet_checkJoin (type : Option ValueType) : Quiet (checkJoin type) := by
  rw [checkJoin.eq_def]
  split
  · exact Quiet.require _ _
  · exact Quiet.pure ()

theorem quiet_indexType (objType index : ValueType) : Quiet (indexType objType index) :=
  (Quiet.require _ _).bind fun _ => Quiet.pure _

theorem quiet_fieldType (t : Tables) (objType : ValueType) (field : Ident) :
    Quiet (fieldType t objType field) := by
  rw [fieldType.eq_def]
  split
  · refine (quiet_checkFieldVisibility t _ _).bind fun _ => Quiet.state.bind fun s => ?_
    split
    · exact Quiet.pure _
    · exact (Quiet.require _ _).bind fun _ => Quiet.pure _
  · exact Quiet.pure _
  · exact (Quiet.report _).bind fun _ => Quiet.pure _

theorem quiet_checkFields (t : Tables) (name : Ident) (given : List Ident) :
    Quiet (checkFields t name given) := by
  rw [checkFields.eq_def]
  split
  · exact Quiet.pure ()
  · split
    · exact Quiet.pure ()
    · exact (Quiet.require _ _).bind fun _ => Quiet.forM _ fun _ => Quiet.report _

theorem quiet_staticPathType (t : Tables) (enumName variant : Ident) :
    Quiet (staticPathType t enumName variant) := by
  rw [staticPathType.eq_def]
  dsimp only
  split
  · exact (Quiet.report _).bind fun _ => Quiet.pure _
  · split
    · exact (Quiet.report _).bind fun _ => Quiet.pure _
    · split
      · exact Quiet.pure _
      · exact (Quiet.require _ _).bind fun _ => Quiet.pure _

namespace Walks

variable {t : Tables} {s : CheckState}

variable {nodes : List Node}

theorem quiet (quiet : Quiet m) : Walks t m [] s :=
  quiet s

theorem pure (a : α) : Walks t (Pure.pure a) [] s :=
  fun _ => rfl

theorem bindAccepted {first second : List Node} (before : Walks t m first s)
    (after : Accepts m s → Walks t (f (m.run s).1) second (m.run s).2) :
    Walks t (m >>= f) (first ++ second) s := by
  intro accepts
  rcases accepts_bind.mp accepts with ⟨accepted, rest⟩
  rw [run_bind, after accepted rest, run_walk_append, before accepted]

theorem bind {m : Check α} {f : α → Check β} {first second : List Node}
    (before : Walks t m first s) (after : Walks t (f (m.run s).1) second (m.run s).2) :
    Walks t (m >>= f) (first ++ second) s :=
  before.bindAccepted fun _ => after

theorem afterQuiet (before : Quiet m) (after : Walks t (f (m.run s).1) nodes s) :
    Walks t (m >>= f) nodes s := by
  intro accepts
  rcases accepts_bind.mp accepts with ⟨accepted, rest⟩
  rw [before s accepted] at rest
  rw [run_bind, before s accepted, after rest]

theorem afterRequire {condition : Bool} {f : Unit → Check α}
    (after : condition = true → Walks t (f ()) nodes s) :
    Walks t (Check.require condition error >>= f) nodes s := by
  intro accepts
  have met := (accepts_require.mp (accepts_bind.mp accepts).1).1
  exact (Walks.afterQuiet (Quiet.require condition error) (after met)) accepts

theorem report {f : Unit → Check α} : Walks t (Check.report error >>= f) nodes s :=
  fun accepts => absurd (accepts_bind.mp accepts).1 accepts_report

theorem infer (e : Expr) : Walks t (inferType t e) [plain e] s :=
  fun _ => (run_check_plain t e s).symm

theorem checkStmt (body : Stmt) : Walks t (Check.checkStmt t body) [.stmt body] s :=
  fun _ => rfl

theorem andQuiet (before : Walks t m nodes s) (after : ∀ a, Quiet (f a)) :
    Walks t (m >>= f) nodes s := by
  have both := before.bind (quiet (t := t) (s := (m.run s).2) (after (m.run s).1))
  rwa [List.append_nil] at both

end Walks

/-- The arguments whose types are not known yet. -/
def unknown : List (Option ValueType) → List Expr → List Expr
  | _, [] => []
  | known, arg :: args =>
      if (known.headD none).isSome then unknown known.tail args
      else arg :: unknown known.tail args

/-- The arguments of a call. -/
def argWalk (t : Tables) (args : List Expr) : ArgWalk :=
  ⟨args.length, fun known => inferArgs t known args,
    fun params known => inferAgainst t params known args, inferFirst t args⟩

variable {args : List Expr} {known : List (Option ValueType)}

section Arguments

variable {t : Tables} {s : CheckState}

@[simp]
theorem unknown_nil (args : List Expr) : unknown [] args = args := by
  induction args with
  | nil => rfl
  | cons arg args ih => simpa [unknown] using ih

theorem unknown_map_some {types : List ValueType} (all : types.length = args.length) :
    unknown (types.map some) args = [] := by
  induction args generalizing types with
  | nil => rfl
  | cons arg args ih =>
      cases types with
      | nil => simp at all
      | cons type types => simpa [unknown] using ih (by simpa using all)

theorem unknown_tail_of_some {type : ValueType} {arg : Expr} (first : known.headD none = some type) :
    unknown known (arg :: args) = unknown known.tail args := by
  rw [unknown, first]
  rfl

theorem map_unknown_cons (known : List (Option ValueType)) (arg : Expr) (args : List Expr) :
    (unknown known (arg :: args)).map plain =
      (if (known.headD none).isSome then [] else [plain arg]) ++
        (unknown known.tail args).map plain := by
  rw [unknown]
  split <;> rfl

theorem visits_orInfer (known : Option ValueType) (arg : Expr) :
    Walks t (orInfer known (inferType t arg)) (if known.isSome then [] else [plain arg]) s := by
  cases known with
  | none => exact Walks.infer arg
  | some type => exact Walks.pure type

theorem visits_inferArgs (known : List (Option ValueType)) (args : List Expr) :
    Walks t (inferArgs t known args) ((unknown known args).map plain) s := by
  induction args generalizing known s with
  | nil =>
      rw [inferArgs]
      exact Walks.pure _
  | cons arg args ih =>
      rw [inferArgs]
      rw [map_unknown_cons]
      exact (visits_orInfer _ arg).bind ((ih known.tail).andQuiet fun _ => Quiet.pure _)

theorem length_inferArgs (known : List (Option ValueType)) (args : List Expr) (s : CheckState) :
    ((inferArgs t known args).run s).1.length = args.length := by
  induction args generalizing known s with
  | nil =>
      rw [inferArgs]
      rfl
  | cons arg args ih =>
      rw [inferArgs]
      simp only [run_bind, run_pure, List.length_cons, ih]

theorem visits_inferAgainst {params : List ValueType} (known : List (Option ValueType))
    (enough : args.length ≤ params.length) :
    Walks t (inferAgainst t params known args) ((unknown known args).map plain) s := by
  induction args generalizing known params s with
  | nil =>
      rw [inferAgainst]
      exact Walks.pure _
  | cons arg args ih =>
      cases params with
      | nil => simp at enough
      | cons expected params =>
          rw [inferAgainst]
          have fits : args.length ≤ params.length := by simpa using enough
          rw [map_unknown_cons]
          exact (visits_orInfer _ arg).bind ((Walks.quiet (quiet_checkArgument t _ _)).bind
            ((ih known.tail fits).andQuiet fun _ => Quiet.pure _))

theorem unknown_inferAgainst {params : List ValueType} (known : List (Option ValueType))
    (enough : args.length ≤ params.length) (s : CheckState) :
    unknown ((inferAgainst t params known args).run s).1 args = [] := by
  induction args generalizing known params s with
  | nil => rfl
  | cons arg args ih =>
      cases params with
      | nil => simp at enough
      | cons expected params =>
          rw [inferAgainst]
          have fits : args.length ≤ params.length := by simpa using enough
          simp only [run_bind, run_pure]
          rw [unknown_tail_of_some rfl]
          exact ih known.tail fits _

theorem visits_inferFirst (args : List Expr) :
    Walks t (inferFirst t args) ((args.take 1).map plain) s := by
  cases args with
  | nil =>
      rw [inferFirst]
      exact Walks.pure _
  | cons arg args =>
      rw [inferFirst]
      exact (Walks.infer arg).andQuiet fun _ => Quiet.pure _

theorem unknown_knowFirst (args : List Expr) (s : CheckState) :
    unknown (knowFirst ((inferFirst t args).run s).1 []) args = args.drop 1 := by
  cases args with
  | nil => rfl
  | cons arg args =>
      rw [inferFirst]
      change unknown [some _] (arg :: args) = args
      rw [unknown_tail_of_some rfl]
      exact unknown_nil args

end Arguments

/-! ## Calls -/

section Calls

variable {t : Tables} {s : CheckState}

variable {name : Ident} {receiver : Option ValueType} {signature : Signature} {key : String}

theorem visits_inferAll (result : ValueType) (known : List (Option ValueType)) (args : List Expr) :
    Walks t (inferAll result known (argWalk t args)) ((unknown known args).map plain) s :=
  (visits_inferArgs known args).andQuiet fun _ => Quiet.pure _

theorem unknown_inferAll (result : ValueType) (known : List (Option ValueType))
    (args : List Expr) :
    unknown ((inferAll result known (argWalk t args)).run s).1.2 args = [] :=
  unknown_map_some (length_inferArgs known args s)

theorem quiet_checkJoined (name : Ident) (list : Option ValueType) :
    Quiet (checkJoined name list) := by
  rw [checkJoined]
  split
  · exact quiet_checkJoin list
  · exact Quiet.pure ()

theorem quiet_checkReceiver (t : Tables) (receiver : Option ValueType) (params : List ValueType) :
    Quiet (checkReceiver t receiver params) := by
  rw [checkReceiver.eq_def]
  split
  · exact quiet_checkArgument t _ _
  · exact Quiet.pure ()

theorem visits_inferJoined (name : Ident) (args : List Expr) (bare : receiver = none → known = []) :
    ∃ first, Walks t (inferJoined name receiver (argWalk t args)) (first.map plain) s ∧
      unknown known args = first ++
        unknown (knowFirst ((inferJoined name receiver (argWalk t args)).run s).1 known) args := by
  rw [inferJoined]
  split
  · rename_i joined
    have missing : receiver = none := by
      simp only [Bool.and_eq_true, Option.isNone_iff_eq_none] at joined
      exact joined.2
    refine ⟨args.take 1, visits_inferFirst args, ?_⟩
    rw [bare missing]
    change _ = _ ++ unknown (knowFirst ((inferFirst t args).run s).1 []) args
    rw [unknown_knowFirst, unknown_nil, List.take_append_drop]
  · exact ⟨[], Walks.pure none, rfl⟩

theorem visits_checkFunctionCall (bare : receiver = none → known = []) :
    Walks t (checkFunctionCall t name signature receiver known (argWalk t args))
      ((unknown known args).map plain) s := by
  rcases visits_inferJoined (t := t) (s := s) name args bare with ⟨first, joined, rest⟩
  rw [checkFunctionCall, rest, List.map_append]
  refine joined.bind (Walks.afterQuiet (quiet_checkJoined _ _) (Walks.afterRequire fun counted => ?_))
  split
  · exact visits_inferAll _ _ args
  · rename_i fixed
    refine Walks.afterQuiet (quiet_checkReceiver t _ _) (Walks.andQuiet ?_ fun _ => Quiet.pure _)
    refine visits_inferAgainst _ ?_
    have count : signature.params.length = receiver.toList.length + (argWalk t args).count := by
      simpa [fixed] using counted
    change _ = _ + args.length at count
    rw [List.length_drop, List.length_map]
    omega

theorem unknown_checkFunctionCall
    (accepts : Accepts (checkFunctionCall t name signature receiver known (argWalk t args)) s) :
    unknown ((checkFunctionCall t name signature receiver known (argWalk t args)).run s).1.2 args =
      [] := by
  rw [checkFunctionCall] at accepts ⊢
  simp only [accepts_bind, accepts_require] at accepts
  rcases accepts with ⟨-, -, ⟨counted, -⟩, -⟩
  simp only [run_bind]
  split
  · exact unknown_inferAll _ _ args
  · rename_i fixed
    have count : signature.params.length = receiver.toList.length + (argWalk t args).count := by
      simpa [fixed] using counted
    change _ = _ + args.length at count
    simp only [run_bind, run_pure]
    refine unknown_inferAgainst _ ?_ _
    rw [List.length_drop, List.length_map]
    omega

theorem visits_checkSiblingCall (known : List (Option ValueType)) (args : List Expr) :
    Walks t (checkSiblingCall t key signature receiver known (argWalk t args))
      ((unknown known args).map plain) s :=
  (visits_inferArgs known args).andQuiet fun _ =>
    (quiet_checkStaticCount t key signature _).bind fun _ => Quiet.pure _

theorem visits_checkCall (bare : receiver = none → known = []) :
    Walks t (checkCall t name receiver known (argWalk t args))
      ((unknown known args).map plain) s := by
  rw [checkCall]
  split
  · exact visits_checkFunctionCall bare
  · refine Walks.afterQuiet Quiet.state ?_
    split
    · exact visits_inferAll _ _ args
    · split
      · exact visits_checkSiblingCall known args
      · exact Walks.report

theorem unknown_checkCall (accepts : Accepts (checkCall t name receiver known (argWalk t args)) s) :
    unknown ((checkCall t name receiver known (argWalk t args)).run s).1.2 args = [] := by
  rw [checkCall] at accepts ⊢
  cases found : t.functions name with
  | some signature =>
      simp only [found] at accepts
      exact unknown_checkFunctionCall accepts
  | none =>
      simp only [found, accepts_bind] at accepts
      simp only [run_bind, run_state] at accepts ⊢
      by_cases called : isFnVariable s name = true
      · simp only [called, ↓reduceIte]
        exact unknown_inferAll _ _ args
      · simp only [called, Bool.false_eq_true, ↓reduceIte] at accepts ⊢
        cases sibling : siblingMethod t name with
        | some method => exact unknown_map_some (length_inferArgs known args _)
        | none =>
            simp only [sibling, accepts_bind] at accepts
            exact absurd accepts.2.1 accepts_report

theorem visits_checkClassMethodCall (args : List Expr) (typeArgs : List Ty) :
    Walks t (checkClassMethodCall t key signature (argWalk t args) typeArgs) (args.map plain) s := by
  have all := visits_inferArgs (t := t) (s := s) [] args
  rw [unknown_nil] at all
  exact all.andQuiet fun _ => (quiet_checkStaticCount t key signature _).bind fun _ => Quiet.pure _

theorem visits_against {params : List (String × ValueType)} (counted : params.length = args.length) :
    Walks t ((argWalk t args).against (params.map Prod.snd) []) (args.map plain) s := by
  have enough : args.length ≤ (params.map Prod.snd).length :=
    Nat.le_of_eq (by rw [List.length_map, counted])
  have all := visits_inferAgainst (t := t) (s := s) [] enough
  rwa [unknown_nil] at all

theorem visits_checkDirect (args : List Expr) :
    Walks t (checkDirect t signature (argWalk t args)) (args.map plain) s := by
  rw [checkDirect]
  refine Walks.afterRequire fun counted => ?_
  exact (visits_against (of_decide_eq_true counted)).andQuiet fun _ => Quiet.pure _

theorem visits_checkSuperCall (method : Ident) (args : List Expr) :
    Walks t (checkSuperCall t method (argWalk t args)) (args.map plain) s := by
  rw [checkSuperCall]
  split
  · exact Walks.report
  · refine Walks.afterRequire fun counted => ?_
    exact (visits_against (of_decide_eq_true counted).symm).andQuiet fun _ => Quiet.pure _

theorem quiet_checkGenericReturn {receiver result : ValueType} (all : unknown known args = []) :
    Walks t (checkGenericReturn t key receiver result known (argWalk t args)) [] s := by
  rw [checkGenericReturn.eq_def]
  split
  · split
    · have walked := visits_inferArgs (t := t) (s := s) known args
      rw [all] at walked
      exact walked.andQuiet fun _ => Quiet.pure _
    · exact Walks.pure _
  · exact Walks.pure _

/-- The lambda that is inferred before the other arguments. -/
def hintedNode (hints : Option (List ValueType)) (arg : Expr) : List Node :=
  match hints, arg with
  | some hints, .lambda _ _ _ => [.expr hints arg]
  | _, _ => []

def hintedNodes (hints : Nat → Option (List ValueType)) : Nat → List Expr → List Node
  | _, [] => []
  | index, arg :: args => hintedNode (hints index) arg ++ hintedNodes hints (index + 1) args

theorem visits_inferLambda (hints : Option (List ValueType)) (arg : Expr) :
    Walks t (inferLambda t hints arg) (hintedNode hints arg) s := by
  cases arg with
  | lambda params retType body =>
      cases hints with
      | none =>
          rw [inferLambda]
          exact Walks.pure none
      | some hints =>
          rw [inferLambda]
          exact fun _ => rfl
  | _ =>
      rw [inferLambda]
      · cases hints <;> exact Walks.pure none
      · intros
        contradiction

theorem visits_inferLambdas (hints : Nat → Option (List ValueType)) (index : Nat)
    (args : List Expr) :
    Walks t (inferLambdas t hints index args) (hintedNodes hints index args) s := by
  induction args generalizing index s with
  | nil =>
      rw [inferLambdas]
      exact Walks.pure _
  | cons arg args ih =>
      rw [inferLambdas]
      exact (visits_inferLambda _ arg).bind ((ih (index + 1)).andQuiet fun _ => Quiet.pure _)

/-- What a call of a known method visits behind its receiver: the accumulator of a `reduce`,
the lambdas with hints, and then the other arguments. -/
def instanceNodes (t : Tables) (s : CheckState) (objType : ValueType) (method : Ident)
    (args : List Expr) : List Node :=
  let isReduce := reduces objType method args
  let acc := (inferAccumulator isReduce (argWalk t args)).run s
  let hints := lambdaHints t objType acc.1 method (objType.toText ++ "_" ++ method)
  let known := ((inferLambdas t hints 0 args).run acc.2).1.1
  (if isReduce then args.take 1 else []).map plain ++
    (hintedNodes hints 0 args ++ (unknown (knowFirst acc.1 known) args).map plain)

/-- What a method call on a value visits behind its receiver. -/
def methodNodes (t : Tables) (s : CheckState) (objType : ValueType) (method : Ident)
    (args : List Expr) : List Node :=
  if objType == .any || isFnVariable s (objType.toText ++ "." ++ method) then args.map plain
  else instanceNodes t s objType method args

theorem visits_inferAccumulator (isReduce : Bool) (args : List Expr) :
    Walks t (inferAccumulator isReduce (argWalk t args))
      ((if isReduce then args.take 1 else []).map plain) s := by
  cases isReduce with
  | true => exact visits_inferFirst args
  | false => exact Walks.pure none

theorem visits_checkMethodCall (objType : ValueType) (method : Ident) (args : List Expr) :
    Walks t (checkMethodCall t objType method (argWalk t args) (reduces objType method args)
      fun hints => inferLambdas t hints 0 args) (methodNodes t s objType method args) s := by
  rw [checkMethodCall]
  refine Walks.afterQuiet Quiet.state ?_
  split
  · rename_i dynamic
    have nodes : methodNodes t s objType method args = args.map plain := if_pos dynamic
    have all := visits_inferArgs (t := t) (s := s) [] args
    rw [unknown_nil] at all
    rw [nodes]
    exact all.andQuiet fun _ => Quiet.pure _
  · rename_i static
    have nodes : methodNodes t s objType method args = instanceNodes t s objType method args :=
      if_neg static
    rw [nodes]
    refine Walks.afterQuiet (quiet_checkMethodVisibility t _ _) ?_
    refine (visits_inferAccumulator _ args).bind ((visits_inferLambdas _ 0 args).bind ?_)
    rw [← List.append_nil (List.map plain _)]
    refine (visits_checkCall fun missing => ?_).bindAccepted fun called => ?_
    · exact absurd missing (Option.some_ne_none objType)
    exact (quiet_checkGenericReturn (unknown_checkCall called)).andQuiet fun _ => Quiet.pure _

end Calls

/-! ## Operands -/

/-- What the check of an expression visits, where nothing is bound and no loop is entered. -/
def operands (t : Tables) (s : CheckState) : Expr → List Node
  | .arrayLiteral elems | .tuple elems | .superCall _ elems | .new _ _ elems
  | .enumValue _ _ _ elems => elems.map plain
  | .mapLiteral entries => entries.flatMap fun entry => [plain entry.1, plain entry.2]
  | .structLiteral _ fields => fields.map fun field => plain field.2
  | .binary _ first second | .index first second | .assign first second
  | .compoundAssign _ first second | .send first second | .range first second _ =>
      [plain first, plain second]
  | .unary _ operand | .fieldAccess operand _ | .throwExpr operand | .spawn operand
  | .await operand | .recv operand | .cast operand _ | .is operand _ | .tupleIndex operand _ =>
      [plain operand]
  | .call func args =>
      match calledName func with
      | some _ => args.map plain
      | none => plain func :: args.map plain
  | .methodCall obj method args =>
      match staticTarget t s obj method with
      | .none =>
          let checked := (inferType t obj).run s
          plain obj :: methodNodes t checked.2 checked.1 method args
      | _ => args.map plain
  | .ifExpr cond thenBranch elseBranch =>
      plain cond :: plain thenBranch :: elseBranch.toList.map plain
  | .returnExpr value => value.toList.map plain
  | _ => []

/-- Expressions that bind names, are bodies of loops, or have statements. -/
def isPlain : Expr → Bool
  | .block _ | .whileExpr _ _ | .forExpr _ _ _ | .loopExpr _ | .matchExpr _ _ | .tryExpr _ _ _
  | .lambda _ _ _ => false
  | _ => true

section Operands

variable {t : Tables} {s : CheckState}

theorem visits_args (args : List Expr) : Walks t (inferArgs t [] args) (args.map plain) s := by
  have all := visits_inferArgs (t := t) (s := s) [] args
  rwa [unknown_nil] at all

theorem visits_inferOption (value : Option Expr) :
    Walks t (inferOption t value) (value.toList.map plain) s := by
  cases value with
  | none =>
      rw [inferOption]
      exact Walks.pure _
  | some value =>
      rw [inferOption]
      exact (Walks.infer value).andQuiet fun _ => Quiet.pure _

theorem visits_checkOption (body : Option Stmt) :
    Walks t (checkOption t body) (body.toList.map .stmt) s := by
  cases body with
  | none =>
      rw [checkOption]
      exact Walks.pure _
  | some body =>
      rw [checkOption]
      exact (Walks.checkStmt body).andQuiet fun _ => Quiet.pure _

theorem visits_inferEntries (entries : List (Expr × Expr)) :
    Walks t (inferEntries t entries)
      (entries.flatMap fun entry => [plain entry.1, plain entry.2]) s := by
  induction entries generalizing s with
  | nil =>
      rw [inferEntries]
      exact Walks.pure _
  | cons entry entries ih =>
      rw [inferEntries]
      exact (Walks.infer entry.1).bind ((Walks.infer entry.2).bind
        (ih.andQuiet fun _ => Quiet.pure _))

theorem visits_inferFields (name : Ident) (params : List String) (bindings : Bindings)
    (fields : List (Ident × Expr)) :
    Walks t (inferFields t name params bindings fields)
      (fields.map fun field => plain field.2) s := by
  induction fields generalizing bindings s with
  | nil =>
      rw [inferFields]
      exact Walks.pure _
  | cons field fields ih =>
      rw [inferFields]
      exact (Walks.infer field.2).bind (Walks.afterQuiet Quiet.state (ih _))

theorem quiet_ident (name : Ident) : Quiet (inferType t (.ident name)) := by
  rw [inferType]
  refine Quiet.state.bind fun s => ?_
  split
  · exact Quiet.pure _
  · split
    · exact Quiet.pure _
    · split
      · exact Quiet.pure _
      · exact (Quiet.report _).bind fun _ => Quiet.pure _

theorem quiet_this : Quiet (inferType t .this) := by
  rw [inferType]
  refine Quiet.state.bind fun s => ?_
  split <;> exact Quiet.pure _

theorem visits_namedCall (name : Ident) (args : List Expr) :
    Walks t (checkCall t name none [] (argWalk t args)) (args.map plain) s := by
  have called : Walks t (checkCall t name none [] (argWalk t args))
      ((unknown [] args).map plain) s := visits_checkCall fun _ => rfl
  rwa [unknown_nil] at called

theorem visits_call (func : Expr) (args : List Expr) :
    Walks t (inferType t (.call func args)) (operands t s (.call func args)) s := by
  rw [inferType, operands]
  cases calledName func with
  | some name => exact (visits_namedCall name args).andQuiet fun _ => Quiet.pure _
  | none => exact (Walks.infer func).bind ((visits_args args).andQuiet fun _ => Quiet.pure _)

theorem visits_methodCall (obj : Expr) (method : Ident) (args : List Expr) :
    Walks t (inferType t (.methodCall obj method args))
      (operands t s (.methodCall obj method args)) s := by
  rw [inferType, operands]
  refine Walks.afterQuiet Quiet.state ?_
  rw [run_state]
  cases staticTarget t s obj method with
  | direct signature => exact visits_checkDirect args
  | named key => exact (visits_namedCall key args).andQuiet fun _ => Quiet.pure _
  | none => exact (Walks.infer obj).bind (visits_checkMethodCall _ method args)

theorem visits_operands {e : Expr} (plain : isPlain e = true) :
    Walks t (inferType t e) (operands t s e) s := by
  cases e with
  | literal value =>
      rw [inferType_literal]
      exact Walks.pure _
  | breakExpr | continueExpr | channel =>
      rw [inferType]
      exact Walks.pure _
  | arrayLiteral elems =>
      rw [inferType]
      exact (visits_args elems).andQuiet fun types => by cases types <;> exact Quiet.pure _
  | mapLiteral entries =>
      rw [inferType]
      exact (visits_inferEntries entries).andQuiet fun types => by
        cases types <;> exact Quiet.pure _
  | ident name => exact Walks.quiet (quiet_ident name)
  | this => exact Walks.quiet quiet_this
  | binary op lhs rhs =>
      rw [inferType]
      exact (Walks.infer lhs).bind ((Walks.infer rhs).andQuiet fun _ =>
        (quiet_checkBinaryOp op _ _).bind fun _ => Quiet.pure _)
  | unary op operand =>
      rw [inferType]
      exact (Walks.infer operand).andQuiet fun _ =>
        (quiet_checkUnaryOp op _).bind fun _ => Quiet.pure _
  | call func args => exact visits_call func args
  | methodCall obj method args => exact visits_methodCall obj method args
  | index obj index =>
      rw [inferType]
      exact (Walks.infer obj).bind ((Walks.infer index).andQuiet fun _ => quiet_indexType _ _)
  | fieldAccess obj field =>
      rw [inferType]
      exact (Walks.infer obj).andQuiet fun _ => quiet_fieldType t _ field
  | superCall method args =>
      rw [inferType]
      exact visits_checkSuperCall method args
  | new className typeArgs args =>
      rw [inferType]
      exact (visits_args args).andQuiet fun _ => Quiet.pure _
  | structLiteral name fields =>
      rw [inferType]
      exact (visits_inferFields name _ _ fields).andQuiet fun _ =>
        (quiet_checkFields t name _).bind fun _ => Quiet.pure _
  | ifExpr cond thenBranch elseBranch =>
      rw [inferType]
      refine (Walks.infer cond).bind (Walks.afterQuiet (quiet_checkCondition _)
        ((Walks.infer thenBranch).bind ?_))
      cases elseBranch with
      | none => exact Walks.pure _
      | some elseBranch => exact (Walks.infer elseBranch).andQuiet fun _ => Quiet.pure _
  | returnExpr value =>
      rw [inferType]
      exact (visits_inferOption value).andQuiet fun _ => Quiet.pure _
  | throwExpr operand | spawn operand | await operand | recv operand | cast operand _
  | is operand _ | tupleIndex operand _ =>
      rw [inferType]
      exact (Walks.infer operand).andQuiet fun _ => Quiet.pure _
  | assign target value | compoundAssign op target value =>
      rw [inferType]
      exact (Walks.infer target).bind (Walks.infer value)
  | send handle value =>
      rw [inferType]
      exact (Walks.infer handle).bind ((Walks.infer value).andQuiet fun _ => Quiet.pure _)
  | range start stop inclusive =>
      rw [inferType]
      exact (Walks.infer start).bind ((Walks.infer stop).andQuiet fun _ =>
        (Quiet.require _ _).bind fun _ => Quiet.pure _)
  | tuple elems =>
      rw [inferType]
      exact (visits_args elems).andQuiet fun _ => Quiet.pure _
  | enumValue enumName variant typeArgs args =>
      rw [inferType]
      cases found : t.functions (enumName ++ "_" ++ variant) with
      | some signature => exact visits_checkClassMethodCall args typeArgs
      | none => exact (visits_args args).andQuiet fun _ => quiet_staticPathType t enumName variant
  | block stmts => contradiction
  | whileExpr cond body => contradiction
  | forExpr var iter body => contradiction
  | loopExpr body => contradiction
  | matchExpr e cases => contradiction
  | tryExpr body catches finally_ => contradiction
  | lambda params retType body => contradiction

/-- What the check of a statement visits, where nothing is bound and no loop is entered. -/
def stmtOperands : Stmt → List Node
  | .letStmt _ _ value | .varStmt _ _ value | .returnStmt value => value.toList.map plain
  | .assignment target value => [plain target, plain value]
  | .throwStmt value | .expr value => [plain value]
  | .ifStmt cond thenBranch elseBranch =>
      plain cond :: .stmt thenBranch :: elseBranch.toList.map .stmt
  | .deferStmt body => [.stmt body]
  | _ => []

/-- Statements that bind no names, are no loops, and have no block. -/
def isPlainStmt : Stmt → Bool
  | .assignment _ _ | .ifStmt _ _ _ | .returnStmt _ | .breakStmt | .continueStmt | .throwStmt _
  | .expr _ | .deferStmt _ | .empty => true
  | _ => false

theorem quiet_checkTarget (target : Expr) : Quiet (checkTarget target) := by
  rw [checkTarget]
  split
  · refine Quiet.state.bind fun s => ?_
    split
    · exact Quiet.report _
    · exact Quiet.pure ()
  · exact Quiet.pure ()

theorem quiet_checkReturned (t : Tables) (expected found : Option ValueType) :
    Quiet (checkReturned t expected found) := by
  rw [checkReturned.eq_def]
  split
  · exact quiet_checkArgument t _ _
  · exact Quiet.pure ()

theorem visits_stmtOperands {body : Stmt} (plain : isPlainStmt body = true) :
    Walks t (checkStmt t body) (stmtOperands body) s := by
  cases body with
  | assignment target value =>
      rw [checkStmt]
      exact (Walks.infer target).bind ((Walks.infer value).andQuiet fun _ =>
        (quiet_checkArgument t _ _).bind fun _ =>
          (quiet_checkTarget target).bind fun _ => Quiet.pure _)
  | ifStmt cond thenBranch elseBranch =>
      rw [checkStmt]
      refine (Walks.infer cond).bind (Walks.afterQuiet (quiet_checkCondition _)
        ((Walks.checkStmt thenBranch).bind ?_))
      cases elseBranch with
      | none => exact Walks.pure _
      | some elseBranch => exact (Walks.checkStmt elseBranch).andQuiet fun _ => Quiet.pure _
  | returnStmt value =>
      rw [checkStmt]
      exact (visits_inferOption value).andQuiet fun _ => Quiet.state.bind fun _ =>
        (quiet_checkReturned t _ _).bind fun _ => Quiet.pure _
  | breakStmt | continueStmt =>
      rw [checkStmt]
      exact Walks.quiet (Quiet.state.bind fun _ => (Quiet.require _ _).bind fun _ => Quiet.pure _)
  | throwStmt value =>
      rw [checkStmt]
      exact (Walks.infer value).andQuiet fun _ => (Quiet.require _ _).bind fun _ => Quiet.pure _
  | expr value =>
      rw [checkStmt]
      exact (Walks.infer value).andQuiet fun _ => Quiet.pure _
  | deferStmt inner =>
      rw [checkStmt]
      exact (Walks.checkStmt inner).andQuiet fun _ => Quiet.pure _
  | empty =>
      rw [checkStmt_empty]
      exact Walks.pure _
  | letStmt name type value | varStmt name type value | whileStmt cond body
  | forStmt var iter body | forC init cond update body | loop body
  | tryStmt body catches finally_ | block stmts | select arms default => contradiction

theorem visits_declaredType (type : Option Ty) (value : Option Expr) :
    Walks t (do
      let valueType ← inferOption t value
      declaredType t type valueType) (value.toList.map plain) s := by
  refine (visits_inferOption value).andQuiet fun found => ?_
  rw [declaredType.eq_def]
  split
  · exact (quiet_checkArgument t _ _).bind fun _ => Quiet.pure _
  all_goals exact Quiet.pure _

/-- The condition of a C-style loop and the step behind it. -/
def checkHeader (t : Tables) (cond update : Option Expr) : Check Unit := do
  let condType ← inferOption t cond
  condType.forM checkCondition
  let _ ← inferOption t update
  pure ()

theorem visits_checkHeader (cond update : Option Expr) :
    Walks t (checkHeader t cond update) (cond.toList.map plain ++ update.toList.map plain) s :=
  (visits_inferOption cond).bind (Walks.afterQuiet (Quiet.optionForM _ quiet_checkCondition)
    ((visits_inferOption update).andQuiet fun _ => Quiet.pure ()))

end Operands

end Tinox.Check
