import Tinox.Parser.Runs

/-!
# Orderly parsers

What holds of every function behind expressions and statements: it never moves
back, leaves the nesting depth as it was, only adds errors, and what it reads
without an error it also reads one level higher up.

The functions are orderly since their parts are; instance search puts the parts
together.
-/

namespace Tinox.Parser

open Tinox.Syntax Parse

/-- The same state one level deeper. -/
def State.deeper (s : State) : State :=
  { s with depth := s.depth + 1 }

/-- Orderly parsers. -/
class Orderly {α : Type} (p : Parse α) : Prop where
  shrinks : ∀ {s outcome s'}, p s = some (outcome, s') → s'.rest.length ≤ s.rest.length
  depth_eq : ∀ {s outcome s'}, p s = some (outcome, s') → s'.depth = s.depth
  errors_grow : ∀ {s outcome s'}, p s = some (outcome, s') → s.errors <+: s'.errors
  lifts : ∀ {s : State} {a s'}, p s.deeper = some (.ok a, s') → s'.errors = s.errors →
    p s = some (.ok a, { s' with depth := s.depth })

namespace Orderly

variable {α β : Type}

instance pure (a : α) : Orderly (Pure.pure a : Parse α) where
  shrinks run := by cases run; exact Nat.le_refl _
  depth_eq run := by cases run; rfl
  errors_grow run := by cases run; exact List.prefix_rfl
  lifts run _ := by cases run; rfl

instance fail (e : ParseError) : Orderly (Parse.fail e : Parse α) where
  shrinks run := by cases run; exact Nat.le_refl _
  depth_eq run := by cases run; rfl
  errors_grow run := by cases run; exact List.prefix_rfl
  lifts run _ := by cases run

instance error (text : String) : Orderly (Parse.error text : Parse α) :=
  fail _

instance outOfFuel : Orderly (Parse.outOfFuel : Parse α) where
  shrinks run := by cases run
  depth_eq run := by cases run
  errors_grow run := by cases run
  lifts run := by cases run

theorem look {f : State → α} (sameRest : ∀ s : State, f s.deeper = f s) : Orderly (get f) where
  shrinks run := by cases run; exact Nat.le_refl _
  depth_eq run := by cases run; rfl
  errors_grow run := by cases run; exact List.prefix_rfl
  lifts run _ := by
    cases run
    rw [get_apply, sameRest]
    rfl

theorem skip {f : List TokenKind → List TokenKind}
    (shorter : ∀ rest, (f rest).length ≤ rest.length) :
    Orderly (modify fun s => { s with rest := f s.rest }) where
  shrinks run := by cases run; exact shorter _
  depth_eq run := by cases run; rfl
  errors_grow run := by cases run; exact List.prefix_rfl
  lifts run _ := by cases run; rfl

instance bind (p : Parse α) (f : α → Parse β) [Orderly p] [∀ a, Orderly (f a)] :
    Orderly (p >>= f) where
  shrinks {s outcome s'} run := by
    rw [bind_apply] at run
    split at run
    · cases run
    · next first =>
        cases run
        exact shrinks first
    · next first => exact Nat.le_trans (shrinks run) (shrinks first)
  depth_eq {s outcome s'} run := by
    rw [bind_apply] at run
    split at run
    · cases run
    · next first =>
        cases run
        exact depth_eq first
    · next first => rw [depth_eq run, depth_eq first]
  errors_grow {s outcome s'} run := by
    rw [bind_apply] at run
    split at run
    · cases run
    · next first =>
        cases run
        exact errors_grow first
    · next first => exact (errors_grow first).trans (errors_grow run)
  lifts {s b s'} run clean := by
    rcases ok_of_bind run with ⟨a, middle, first, second⟩
    -- errors only grow, so the first part was clean as well
    have same : middle.errors = s.errors := by
      have before := errors_grow first
      have after := errors_grow second
      rw [clean] at after
      exact after.eq_of_length_le before.length_le
    have deep : middle = State.deeper { middle with depth := s.depth } := by
      have depth : middle.depth = s.depth + 1 := depth_eq first
      cases middle
      exact congrArg (State.mk _ _) depth
    rw [deep] at second
    rw [bind_of_ok (lifts first same), lifts second (by rw [clean, same])]

instance ite (c : Prop) [Decidable c] (p q : Parse α) [Orderly p] [Orderly q] :
    Orderly (if c then p else q) := by
  split <;> infer_instance

instance iterate (step : α → Parse (α ⊕ β)) (count : Nat) (a : α) [∀ a, Orderly (step a)] :
    Orderly (iterate step count a) := by
  induction count generalizing a with
  | zero => exact outOfFuel
  | succ count ih =>
      rw [Parse.iterate]
      refine @bind _ _ _ _ _ ?_
      intro choice
      cases choice with
      | inl a => exact ih a
      | inr b => exact pure b

instance loop (step : α → Parse (α ⊕ β)) (a : α) [∀ a, Orderly (step a)] :
    Orderly (loop step a) where
  shrinks run := shrinks (p := Parse.iterate step _ a) run
  depth_eq run := depth_eq (p := Parse.iterate step _ a) run
  errors_grow run := errors_grow (p := Parse.iterate step _ a) run
  lifts {s} _ _ run clean := lifts (p := Parse.iterate step (s.rest.length + 1) a) run clean

theorem recover_run {p : Parse α} {f : α → Parse β} {q : Parse β} {s s' : State}
    {outcome : Except ParseError β} (run : Parser.recover p f q s = some (outcome, s')) :
    (p >>= f) s = some (outcome, s') ∨ ∃ e middle, p s = some (.error e, middle) ∧
      q { middle with errors := middle.errors ++ [e] } = some (outcome, s') := by
  simp only [Parser.recover, bind_apply, result] at run ⊢
  cases first : p s with
  | none => simp [first] at run
  | some pair =>
      rcases pair with ⟨e | a, middle⟩
      · simp only [first, bind_apply, pushError, modify_apply] at run
        exact .inr ⟨e, middle, rfl, run⟩
      · simp only [first] at run ⊢
        exact .inl run

/-- After an error that is recorded a parser can go on. -/
instance recover (p : Parse α) (f : α → Parse β) (q : Parse β) [Orderly p]
    [∀ a, Orderly (f a)] [Orderly q] : Orderly (recover p f q) where
  shrinks run := by
    rcases recover_run run with run | ⟨e, middle, first, run⟩
    · exact shrinks run
    · have before := shrinks first
      exact Nat.le_trans (shrinks (p := q) run) before
  depth_eq run := by
    rcases recover_run run with run | ⟨e, middle, first, run⟩
    · exact depth_eq run
    · have before := depth_eq first
      exact (depth_eq (p := q) run).trans before
  errors_grow run := by
    rcases recover_run run with run | ⟨e, middle, first, run⟩
    · exact errors_grow run
    · exact (errors_grow first).trans ((List.prefix_append _ _).trans (errors_grow run))
  lifts {s b s'} run clean := by
    rcases recover_run run with run | ⟨e, middle, first, run⟩
    · have lifted := lifts run clean
      rcases ok_of_bind lifted with ⟨a, middle, first, second⟩
      simp only [Parser.recover, bind_apply, result, first, second]
    · -- the recorded error stays
      have longer := (errors_grow run).length_le
      have before := (errors_grow first).length_le
      rw [clean, List.length_append] at longer
      simp only [State.deeper, List.length_singleton] at longer before
      omega

theorem nested_run {message : String} {p : Parse α} {s s' : State}
    {outcome : Except ParseError α} (run : Parser.nested message p s = some (outcome, s')) :
    (s' = s ∧ outcome = .error (.message message)) ∨
      (s.depth + 1 ≤ maxRecursionDepth ∧ ∃ middle, p s.deeper = some (outcome, middle) ∧
        s' = { middle with depth := middle.depth - 1 }) := by
  by_cases deep : maxRecursionDepth < s.depth + 1
  · simp only [Parser.nested, bind_apply, get_apply, gt_iff_lt, deep, if_true, error_apply] at run
    cases run
    exact .inl ⟨rfl, rfl⟩
  · simp only [Parser.nested, bind_apply, get_apply, gt_iff_lt, deep, if_false, modify_apply,
      result] at run
    cases inner : p s.deeper with
    | none =>
        rw [State.deeper] at inner
        simp [inner] at run
    | some pair =>
        rcases pair with ⟨given, middle⟩
        refine .inr ⟨by omega, middle, ?_⟩
        rw [State.deeper] at inner
        simp only [inner] at run
        cases given <;> cases run <;> exact ⟨rfl, rfl⟩

/-- A part that is parsed one level deeper. -/
instance nested (message : String) (p : Parse α) [Orderly p] : Orderly (nested message p) where
  shrinks run := by
    rcases nested_run run with ⟨rfl, _⟩ | ⟨_, middle, inner, rfl⟩
    · exact Nat.le_refl _
    · have shorter := shrinks inner
      exact shorter
  depth_eq run := by
    rcases nested_run run with ⟨rfl, _⟩ | ⟨_, middle, inner, rfl⟩
    · rfl
    · have depth := depth_eq (p := p) inner
      simp only [State.deeper] at depth ⊢
      omega
  errors_grow run := by
    rcases nested_run run with ⟨rfl, _⟩ | ⟨_, middle, inner, rfl⟩
    · exact List.prefix_rfl
    · have longer := errors_grow inner
      exact longer
  lifts {s a s'} run clean := by
    rcases nested_run run with ⟨_, failed⟩ | ⟨shallow, middle, inner, rfl⟩
    · cases failed
    · have lifted := lifts (p := p) inner clean
      simp only [State.deeper] at shallow lifted
      exact nested_of_run s.rest s.errors s.depth (by omega) lifted

end Orderly

open Orderly

instance : Orderly peek :=
  look fun _ => rfl

instance (offset : Nat) : Orderly (peekAhead offset) :=
  look fun _ => rfl

instance (kind : TokenKind) : Orderly (check kind) :=
  look fun _ => rfl

instance (keyword : Keyword) : Orderly (checkKeyword keyword) :=
  look fun _ => rfl

instance : Orderly isAtEnd :=
  look fun _ => rfl

instance look_rest {α : Type} (f : List TokenKind → α) : Orderly (get fun s => f s.rest) :=
  look fun _ => rfl

instance : Orderly bump :=
  skip fun rest => by simp

theorem skipToSync_length (first : Bool) (rest : List TokenKind) :
    (skipToSync first rest).length ≤ rest.length := by
  fun_induction skipToSync first rest <;> grind

instance : Orderly synchronize :=
  skip (skipToSync_length true)

instance (kind : TokenKind) : Orderly (consume kind) := by
  unfold consume
  infer_instance

instance (keyword : Keyword) : Orderly (consumeKeyword keyword) := by
  unfold consumeKeyword
  infer_instance

instance (kind : TokenKind) : Orderly (expect kind) := by
  unfold expect
  infer_instance

instance (keyword : Keyword) : Orderly (expectKeyword keyword) := by
  unfold expectKeyword
  infer_instance

/-- The tokens behind the `>` that closes type arguments. -/
def behindClose : List TokenKind → Option (List TokenKind)
  | .greater :: rest => some rest
  | .greaterGreater :: rest => some (.greater :: rest)
  | .greaterGreaterGreater :: rest => some (.greaterGreater :: rest)
  | _ => none

theorem expectGenericClose_apply (s : State) :
    expectGenericClose s =
      match behindClose s.rest with
      | some rest => some (.ok (), { s with rest })
      | none => some (.error (.message "expected '>'"), s) := by
  rcases s with ⟨rest, errors, depth⟩
  cases rest with
  | nil => rfl
  | cons token rest => cases token <;> rfl

theorem behindClose_length {rest rest' : List TokenKind} (closed : behindClose rest = some rest') :
    rest'.length ≤ rest.length := by
  unfold behindClose at closed
  split at closed <;> cases closed <;> simp

instance : Orderly expectGenericClose where
  shrinks {s outcome s'} run := by
    rw [expectGenericClose_apply] at run
    split at run <;> cases run
    · next closed => exact behindClose_length closed
    · exact Nat.le_refl _
  depth_eq {s outcome s'} run := by
    rw [expectGenericClose_apply] at run
    split at run <;> cases run <;> rfl
  errors_grow {s outcome s'} run := by
    rw [expectGenericClose_apply] at run
    split at run <;> cases run <;> exact List.prefix_rfl
  lifts {s a s'} run _ := by
    rw [expectGenericClose_apply] at run ⊢
    simp only [State.deeper] at run
    cases closed : behindClose s.rest <;> simp only [closed] at run <;> cases run
    rfl

instance : Orderly parseIdent := by
  unfold parseIdent
  refine @Orderly.bind _ _ _ _ _ fun token => ?_
  split
  · infer_instance
  · infer_instance
  · split <;> infer_instance
  · infer_instance

instance : Orderly parseMethodName := by
  unfold parseMethodName
  refine @Orderly.bind _ _ _ _ _ fun token => ?_
  split
  · infer_instance
  · split <;> infer_instance
  · infer_instance

section Lists

variable {α : Type} (item : Parse α) [Orderly item]

instance (close : Option TokenKind) (items : List α) : Orderly (commaItem item close items) := by
  unfold commaItem
  cases close <;> infer_instance

instance (close : Option TokenKind) (items : List α) : Orderly (commaTail item close items) := by
  unfold commaTail
  infer_instance

instance : Orderly (commaList1 item) := by
  unfold commaList1
  infer_instance

instance (close : TokenKind) : Orderly (commaList item close) := by
  unfold commaList
  infer_instance

instance (close : TokenKind) : Orderly (commaListTrailing item close) := by
  unfold commaListTrailing
  infer_instance

end Lists

/-- The functions through which expressions, statements, types and patterns call
each other. -/
class OrderlyRec (r : Rec) : Prop where
  expr : Orderly r.expr
  assignExpr : Orderly r.assignExpr
  ternaryExpr : Orderly r.ternaryExpr
  unaryExpr : Orderly r.unaryExpr
  postfixExpr : Orderly r.postfixExpr
  stmt : Orderly r.stmt
  ifStmt : Orderly r.ifStmt
  type : Orderly r.type
  pattern : Orderly r.pattern

attribute [instance] OrderlyRec.expr OrderlyRec.assignExpr OrderlyRec.ternaryExpr
  OrderlyRec.unaryExpr OrderlyRec.postfixExpr OrderlyRec.stmt OrderlyRec.ifStmt OrderlyRec.type
  OrderlyRec.pattern

section Grammar

set_option synthInstance.maxSize 2000
set_option synthInstance.maxHeartbeats 100000

variable (r : Rec) [OrderlyRec r]

instance (name : Ident) : Orderly (parseNamedType r name) := by
  unfold parseNamedType
  split <;> infer_instance

instance : Orderly (parseTypeBase r) := by
  unfold parseTypeBase
  infer_instance

theorem skipToBracket_length (rest : List TokenKind) :
    (skipToBracket rest).length ≤ rest.length := by
  fun_induction skipToBracket rest <;> grind

instance (base : Ty) : Orderly (parseArraySuffixes base) := by
  have skipped := skip skipToBracket_length
  unfold parseArraySuffixes
  infer_instance

instance (first : List Ty) (arrow : Bool) : Orderly (parseFnTypeTail r first arrow) := by
  unfold parseFnTypeTail
  infer_instance

instance : Orderly (parseSuffixedType r) := by
  unfold parseSuffixedType
  infer_instance

instance : Orderly (parseType r) := by
  unfold parseType
  infer_instance

instance : Orderly (parsePatternArgs r) := by
  unfold parsePatternArgs
  infer_instance

instance (name : Ident) : Orderly (parseNamePattern r name) := by
  unfold parseNamePattern
  infer_instance

instance : Orderly (parsePattern r) := by
  unfold parsePattern
  refine @Orderly.bind _ _ _ _ _ fun isWildcard => ?_
  refine @Orderly.ite _ _ _ _ _ inferInstance ?_
  refine @Orderly.bind _ _ _ _ _ fun isTuple => ?_
  refine @Orderly.ite _ _ _ _ _ inferInstance ?_
  refine @Orderly.bind _ _ _ _ _ fun token => ?_
  split <;> infer_instance

instance : Orderly (parseLambdaParam r) := by
  unfold parseLambdaParam
  infer_instance

instance : Orderly (parseBlockStmts r) := by
  unfold parseBlockStmts parseBlockStmt
  infer_instance

instance : Orderly (parseBlockBody r) := by
  unfold parseBlockBody
  infer_instance

instance : Orderly (parseBlock r) := by
  unfold parseBlock
  infer_instance

instance : Orderly (parseArgs r) := by
  unfold parseArgs
  infer_instance

instance : Orderly (parseNamedArgs r) := by
  unfold parseNamedArgs parseNamedArg skipArgName
  infer_instance

instance : Orderly (parseTypeArgs r) := by
  unfold parseTypeArgs
  infer_instance

instance (parts : List InterpPart) (joined : Option Expr) :
    Orderly (parseInterpParts r parts joined) := by
  induction parts generalizing joined with
  | nil =>
      unfold parseInterpParts
      infer_instance
  | cons part parts ih =>
      unfold parseInterpParts
      cases part with
      | str text => infer_instance
      | expr source =>
          refine @Orderly.bind _ _ _ _ ?_ _
          cases r.exprStr source with
          | none => exact outOfFuel
          | some outcome =>
              cases outcome with
              | error e => exact Orderly.fail e
              | ok e => exact Orderly.pure _

instance : Orderly (parseMapLiteral r) := by
  unfold parseMapLiteral parseMapEntry
  infer_instance

instance : Orderly (parseArrayLiteral r) := by
  unfold parseArrayLiteral
  infer_instance

instance : Orderly (parseMatchCase r) := by
  unfold parseMatchCase parseCaseEnd
  infer_instance

instance : Orderly (parseLambda r) := by
  unfold parseLambda
  infer_instance

instance : Orderly (parseParenExpr r) := by
  unfold parseParenExpr parseTypedLambda parseTupleOrGrouped parseCCast
  infer_instance

instance (name : Ident) : Orderly (parseStructLiteral r name) := by
  unfold parseStructLiteral parseStructField
  infer_instance

theorem skipAngles_length (depth : Int) (rest : List TokenKind) :
    (skipAngles depth rest).length ≤ rest.length := by
  fun_induction skipAngles depth rest <;> grind

theorem skipTypeArgsBeforeBrace_length (rest : List TokenKind) :
    (skipTypeArgsBeforeBrace rest).length ≤ rest.length := by
  unfold skipTypeArgsBeforeBrace
  split
  · next rest =>
      have shorter := skipAngles_length 1 rest
      grind
  · exact Nat.le_refl _

instance (name : Ident) : Orderly (parseIdentExpr r name) := by
  have skipped := skip skipTypeArgsBeforeBrace_length
  unfold parseIdentExpr
  infer_instance

instance (keyword : Keyword) : Orderly (parseKeywordExpr r keyword) := by
  unfold parseKeywordExpr parseSuperCall parseIfExpr parseWhileExpr parseLoopExpr parseMatchExpr
    parseNewExpr parseSpawnExpr parseAwaitExpr parseSendExpr parseRecvExpr parseReturnExpr
    parseCastExpr parseIsExpr parseFnLambda
  split <;> first | infer_instance | skip
  refine @Orderly.bind _ _ _ _ _ fun isParen => ?_
  refine @Orderly.ite _ _ _ _ _ inferInstance ?_
  split <;> infer_instance

instance : Orderly (parsePrimaryExpr r) := by
  unfold parsePrimaryExpr
  refine @Orderly.bind _ _ peek _ inferInstance ?_
  intro token
  cases token <;> infer_instance

instance (expr : Expr) : Orderly (parseDotPostfix r expr) := by
  have skipped := skip (skipAngles_length 1)
  unfold parseDotPostfix
  refine @Orderly.bind _ _ _ _ _ fun token => ?_
  split
  · infer_instance
  · refine @Orderly.bind _ _ _ _ _ fun name => ?_
    refine @Orderly.bind _ _ _ _ _ fun named => ?_
    refine @Orderly.bind _ _ _ _ _ fun paren => ?_
    split <;> infer_instance

instance (expr : Expr) (pending : Option (List Ty)) :
    Orderly (parseColonPostfix r expr pending) := by
  unfold parseColonPostfix
  split <;> infer_instance

instance (expr : Expr) (pending : Option (List Ty)) :
    Orderly (parsePostfixOp r expr pending) := by
  unfold parsePostfixOp
  infer_instance

instance (count : Nat) (expr : Expr) (pending : Option (List Ty)) :
    Orderly (parsePostfixChain r count expr pending) := by
  induction count generalizing expr pending with
  | zero => exact Orderly.error _
  | succ count ih =>
      rw [parsePostfixChain]
      refine @Orderly.bind _ _ _ _ _ fun link => ?_
      split <;> infer_instance

instance : Orderly (parsePostfixExpr r) := by
  unfold parsePostfixExpr
  infer_instance

instance : Orderly (parseUnaryExpr r) := by
  unfold parseUnaryExpr
  refine @Orderly.bind _ _ _ _ _ fun isPlus => ?_
  refine @Orderly.ite _ _ _ _ _ inferInstance ?_
  refine @Orderly.bind _ _ _ _ _ fun token => ?_
  split <;> infer_instance

instance (expr : Expr) : Orderly (parseAs r expr) := by
  unfold parseAs
  infer_instance

instance : Orderly (parseAsExpr r) := by
  unfold parseAsExpr
  infer_instance

instance (operand : Parse Expr) (op? : TokenKind → Option BinaryOp) (lhs : Expr)
    [Orderly operand] : Orderly (parseOperator operand op? lhs) := by
  unfold parseOperator
  refine @Orderly.bind _ _ _ _ _ fun token => ?_
  split <;> infer_instance

instance (level : Nat) : Orderly (parseLevel r level) := by
  induction level with
  | zero =>
      rw [parseLevel]
      infer_instance
  | succ level ih =>
      rw [parseLevel, parseBinary]
      infer_instance

instance : Orderly (parseOrExpr r) := by
  unfold parseOrExpr
  infer_instance

instance : Orderly (parseTernaryExpr r) := by
  unfold parseTernaryExpr
  infer_instance

instance (lhs : Expr) : Orderly (parseAssignTail r lhs) := by
  unfold parseAssignTail
  refine @Orderly.bind _ _ _ _ _ fun isArrow => ?_
  refine @Orderly.ite _ _ _ _ _ ?_ ?_
  · refine @Orderly.bind _ _ _ _ _ fun _ => ?_
    split <;> infer_instance
  · refine @Orderly.bind _ _ _ _ _ fun isAssign => ?_
    refine @Orderly.ite _ _ _ _ _ inferInstance ?_
    refine @Orderly.bind _ _ _ _ _ fun token => ?_
    split <;> infer_instance

instance : Orderly (parseAssignExpr r) := by
  unfold parseAssignExpr
  infer_instance

instance : Orderly (parseExpr r) := by
  unfold parseExpr
  infer_instance

instance : Orderly (parseAssigned r) := by
  unfold parseAssigned
  infer_instance

instance : Orderly (parseCallArgs r) := by
  unfold parseCallArgs
  infer_instance

instance (target : Expr) : Orderly (parseIndices r target) := by
  unfold parseIndices parseIndex
  infer_instance

instance (expr : Expr) : Orderly (parseMember r expr) := by
  unfold parseMember
  infer_instance

instance (expr : Expr) : Orderly (parseMembers r expr) := by
  unfold parseMembers
  infer_instance

instance (expr : Expr) : Orderly (parsePlainMembers r expr) := by
  unfold parsePlainMembers parsePlainMember
  infer_instance

instance (expr : Expr) : Orderly (endExprStmt expr) := by
  unfold endExprStmt
  infer_instance

instance (target : Expr) : Orderly (parseIndexedMembers r target) := by
  unfold parseIndexedMembers
  refine @Orderly.bind _ _ _ _ _ fun members => ?_
  split <;> infer_instance

instance (target : Expr) : Orderly (parseIndexedStmt r target) := by
  unfold parseIndexedStmt
  refine @Orderly.bind _ _ _ _ _ fun isAssign => ?_
  refine @Orderly.ite _ _ _ _ _ inferInstance ?_
  refine @Orderly.bind _ _ _ _ _ fun token => ?_
  split <;> infer_instance

instance (expr : Expr) : Orderly (parseMemberIndexedEnd r expr) := by
  unfold parseMemberIndexedEnd
  refine @Orderly.bind _ _ _ _ _ fun isAssign => ?_
  refine @Orderly.ite _ _ _ _ _ inferInstance ?_
  refine @Orderly.bind _ _ _ _ _ fun token => ?_
  split <;> infer_instance

instance (target : Expr) : Orderly (parseMemberIndexedStmt r target) := by
  unfold parseMemberIndexedStmt
  infer_instance

instance (expr : Expr) : Orderly (parseMemberStmt r expr) := by
  unfold parseMemberStmt
  refine @Orderly.bind _ _ _ _ _ fun members => ?_
  split <;> infer_instance

instance : Orderly (parseStaticArgs r) := by
  unfold parseStaticArgs
  infer_instance

instance (expr : Expr) : Orderly (parseStaticStmt r expr) := by
  unfold parseStaticStmt parseStaticMember
  infer_instance

instance (name : Ident) : Orderly (parseIdentStmt r name) := by
  unfold parseIdentStmt
  refine @Orderly.bind _ _ _ _ _ fun isAssign => ?_
  refine @Orderly.ite _ _ _ _ _ inferInstance ?_
  refine @Orderly.bind _ _ _ _ _ fun token => ?_
  split <;> infer_instance

instance : Orderly (parseDeclType r) := by
  unfold parseDeclType
  infer_instance

instance : Orderly (parseDeclValue r) := by
  unfold parseDeclValue
  infer_instance

instance : Orderly (parseLetStmt r) := by
  unfold parseLetStmt
  infer_instance

instance : Orderly (parseVarStmt r) := by
  unfold parseVarStmt
  infer_instance

instance : Orderly (parseIfStmt r) := by
  unfold parseIfStmt parseElse
  infer_instance

instance : Orderly (parseForInit r) := by
  unfold parseForInit
  infer_instance

instance : Orderly (parseForStmt r) := by
  unfold parseForStmt parseForInStmt parseForCStmt parseForCond parseForUpdate
  infer_instance

instance : Orderly (parseExprStmt r) := by
  unfold parseExprStmt
  infer_instance

instance (keyword : Keyword) : Orderly (parseKeywordStmt r keyword) := by
  unfold parseKeywordStmt parseWhileStmt parseLoopStmt parseReturnStmt parseThrowStmt parseTryStmt
    parseCatch parseDeferStmt parseSelectStmt parseSelectArms parseSelectArm
  split <;> infer_instance

instance : Orderly (parseStmtInner r) := by
  unfold parseStmtInner
  refine @Orderly.bind _ _ _ _ _ fun token => ?_
  split <;> infer_instance

instance : Orderly (parseStmt r) := by
  unfold parseStmt
  infer_instance

end Grammar

instance knot_orderly (tokenize : String → Option (List TokenKind)) (fuel : Nat) :
    OrderlyRec (knot tokenize fuel) := by
  induction fuel with
  | zero | succ fuel ih =>
      rw [knot]
      constructor <;> infer_instance

end Tinox.Parser
