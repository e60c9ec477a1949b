import Tinox.Parser.Runs

/-!
# Precedence of binary operators

The expressions of the precedence grammar, their rendering to tokens with the
parentheses that the table requires, and that `parse_expr` reads the rendering
back.

A rendering is given in front of the tokens that follow it, since the
look-aheads of the parser read on into these.
-/

namespace Tinox.Parser.Precedence

open Tinox.Syntax Parse

/-- Expressions of the precedence grammar.  Parentheses that the source writes
without need are `group`. -/
inductive Tree where
  | ident (name : Ident)
  | integer (value : Int)
  | group (inner : Tree)
  | field (obj : Tree) (name : Ident)
  | call (func : Tree) (args : List Tree)
  | unary (op : UnaryOp) (operand : Tree)
  | binary (op : BinaryOp) (lhs rhs : Tree)

/-- The token of a unary operator. -/
def prefixToken : UnaryOp → TokenKind
  | .neg => .minus
  | .not => .bang
  | .bitNot => .tilde

/-- The token of a binary operator. -/
def infixToken : BinaryOp → TokenKind
  | .mul => .star
  | .div => .slash
  | .mod => .percent
  | .add => .plus
  | .sub => .minus
  | .shl => .lessLess
  | .shr => .greaterGreater
  | .shrArith => .greaterGreaterGreater
  | .lt => .less
  | .le => .lessEquals
  | .gt => .greater
  | .ge => .greaterEquals
  | .eq => .equalsEquals
  | .ne => .bangEquals
  | .bitAnd => .ampersand
  | .xor => .caret
  | .bitOr => .bar
  | .and => .ampAmp
  | .or => .barBar

/-- The place of a binary operator in the precedence table, 0 binding tightest.
The table has no `&`, `^` and `|`; they stand between `==` and `&&`. -/
def tableRow : BinaryOp → Nat
  | .mul | .div | .mod => 0
  | .add | .sub => 1
  | .shl | .shr | .shrArith => 2
  | .lt | .le | .gt | .ge => 3
  | .eq | .ne => 4
  | .bitAnd => 5
  | .xor => 6
  | .bitOr => 7
  | .and => 8
  | .or => 9

namespace Tree

/-- How loosely an expression binds: 0 for postfix expressions, 1 for unary
ones, and from 2 on the binary operators by their row. -/
def rank : Tree → Nat
  | .ident _ | .integer _ | .group _ | .field .. | .call .. => 0
  | .unary .. => 1
  | .binary op .. => tableRow op + 2

/-- Parentheses around a rendering that binds too loosely for its place. -/
def wrap (tooLoose : Bool) (body : List TokenKind → List TokenKind) (rest : List TokenKind) :
    List TokenKind :=
  if tooLoose then .lParen :: body (.rParen :: rest) else body rest

/-- The tokens of an expression in front of `rest`. -/
def render : Tree → List TokenKind → List TokenKind
  | .ident name, rest => .ident name :: rest
  | .integer value, rest => .integer value :: rest
  | .group inner, rest => .lParen :: render inner (.rParen :: rest)
  | .field obj name, rest => wrap (0 < obj.rank) (render obj) (.dot :: .ident name :: rest)
  | .call func args, rest =>
      wrap (0 < func.rank) (render func) (.lParen :: renderArgs args (.rParen :: rest))
  | .unary op operand, rest => prefixToken op :: wrap (1 < operand.rank) (render operand) rest
  | .binary op lhs rhs, rest =>
      wrap (tableRow op + 2 < lhs.rank) (render lhs)
        (infixToken op :: wrap (tableRow op + 1 < rhs.rank) (render rhs) rest)
where
  /-- The tokens of arguments, with commas between them. -/
  renderArgs : List Tree → List TokenKind → List TokenKind
    | [], rest => rest
    | arg :: args, rest => render arg (renderMoreArgs args rest)
  renderMoreArgs : List Tree → List TokenKind → List TokenKind
    | [], rest => rest
    | arg :: args, rest => .comma :: render arg (renderMoreArgs args rest)

/-- The tree that the parser builds.  A call of a field is a method call, and a
field of a bare capitalised name is an enum value. -/
def toExpr : Tree → Expr
  | .ident name => .ident name
  | .integer value => .literal (.integer value)
  | .group inner => toExpr inner
  | .field obj name => member (toExpr obj) name
  | .call (.field obj name) args => .methodCall (toExpr obj) name (toExprs args)
  | .call func args => .call (toExpr func) (toExprs args)
  | .unary op operand => .unary op (toExpr operand)
  | .binary op lhs rhs => .binary op (toExpr lhs) (toExpr rhs)
where
  /-- What `obj.name` is. -/
  member (obj : Expr) (name : Ident) : Expr :=
    match obj, isTypeAccess obj with
    | .ident enumName, true => .enumValue enumName name [] []
    | _, _ => .fieldAccess obj name
  toExprs : List Tree → List Expr
    | [] => []
    | arg :: args => toExpr arg :: toExprs args

/-- The postfix operators at the end of an expression. -/
def links : Tree → Nat
  | .field obj _ => links obj + 1
  | .call (.field obj _) _ => links obj + 1
  | .call func _ => links func + 1
  | _ => 0

/-- The longest chain of postfix operators in an expression. -/
def chain : Tree → Nat
  | .ident _ | .integer _ => 0
  | .group inner => chain inner
  | .field obj name => max (links (.field obj name)) (chain obj)
  | .call func args => max (links (.call func args)) (max (chain func) (chains args))
  | .unary _ operand => chain operand
  | .binary _ lhs rhs => max (chain lhs) (chain rhs)
where
  chains : List Tree → Nat
    | [] => 0
    | arg :: args => max (chain arg) (chains args)

/-- How deep the parentheses of the rendering are nested. -/
def nesting : Tree → Nat
  | .ident _ | .integer _ => 0
  | .group inner => nesting inner + 1
  | .field obj _ => wrapped (0 < obj.rank) (nesting obj)
  | .call func args => max (wrapped (0 < func.rank) (nesting func)) (nestings args)
  | .unary _ operand => wrapped (1 < operand.rank) (nesting operand)
  | .binary op lhs rhs =>
      max (wrapped (tableRow op + 2 < lhs.rank) (nesting lhs))
        (wrapped (tableRow op + 1 < rhs.rank) (nesting rhs))
where
  wrapped (tooLoose : Bool) (inside : Nat) : Nat :=
    if tooLoose then inside + 1 else inside
  nestings : List Tree → Nat
    | [] => 0
    | arg :: args => max (nesting arg + 1) (nestings args)

/-- Calls of the parser inside each other that an expression takes at most. -/
def height : Tree → Nat
  | .ident _ | .integer _ => 0
  | .group inner => height inner + 1
  | .field obj _ => height obj + 1
  | .call func args => max (height func) (heights args) + 1
  | .unary _ operand => height operand + 2
  | .binary _ lhs rhs => max (height lhs) (height rhs) + 1
where
  heights : List Tree → Nat
    | [] => 0
    | arg :: args => max (height arg) (heights args)

/-- No look-ahead of the parser takes a part of the rendering in front of `rest`
for something else.  At each place only the look-aheads of that place count. -/
def Quiet : Tree → List TokenKind → Prop
  | .ident _, rest =>
      skipTypeArgsBeforeBrace rest = rest ∧ isStructLiteral rest = false ∧
        isGenericTypeStaticCall rest = false
  | .integer _, rest => isGenericTypeStaticCall rest = false
  | .group inner, rest =>
      Quiet inner (.rParen :: rest) ∧ isCCast (render (.group inner) rest) = false ∧
        isGenericTypeStaticCall rest = false
  | .field obj name, rest =>
      quietIn (0 < obj.rank) obj.Quiet (.dot :: .ident name :: rest) ∧
        (isTypeAccess obj.toExpr = false → isGenericMethodCall rest = false) ∧
          isGenericTypeStaticCall rest = false
  | .call func args, rest =>
      quietIn (0 < func.rank) func.Quiet (.lParen :: render.renderArgs args (.rParen :: rest)) ∧
        quietArgs args (.rParen :: rest) ∧ isGenericTypeStaticCall rest = false
  | .unary _ operand, rest => quietIn (1 < operand.rank) operand.Quiet rest
  | .binary op lhs rhs, rest =>
      quietIn (tableRow op + 2 < lhs.rank) lhs.Quiet
          (infixToken op :: wrap (tableRow op + 1 < rhs.rank) (render rhs) rest) ∧
        quietIn (tableRow op + 1 < rhs.rank) rhs.Quiet rest
where
  quietIn (tooLoose : Bool) (quiet : List TokenKind → Prop) (rest : List TokenKind) : Prop :=
    if tooLoose then quiet (.rParen :: rest) ∧ isGenericTypeStaticCall rest = false else quiet rest
  quietArgs : List Tree → List TokenKind → Prop
    | [], _ => True
    | arg :: args, rest => Quiet arg (render.renderMoreArgs args rest) ∧ quietArgs args rest

end Tree

open Tree

/-- Tokens that can follow an expression. -/
def isStop : TokenKind → Bool
  | .semicolon | .rParen | .lBrace | .comma | .colon => true
  | _ => false

/-! ## First tokens -/

/-- Tokens that start a postfix expression. -/
def startsOperand : TokenKind → Bool
  | .ident _ | .integer _ | .lParen => true
  | _ => false

/-- Tokens that start an expression. -/
def startsExpr (token : TokenKind) : Bool :=
  startsOperand token || (prefixOp token).isSome

variable {rest : List TokenKind}

theorem head_wrap {start : TokenKind → Bool} (paren : start .lParen = true) (tooLoose : Bool)
    {body : List TokenKind → List TokenKind}
    (bodyHead : tooLoose = false → ∃ token tail, body rest = token :: tail ∧ start token = true) :
    ∃ token tail, wrap tooLoose body rest = token :: tail ∧ start token = true := by
  cases tooLoose with
  | true => exact ⟨.lParen, body (.rParen :: rest), rfl, paren⟩
  | false => exact bodyHead rfl

theorem render_startsOperand (e : Tree) (postfix_ : e.rank = 0) (rest : List TokenKind) :
    ∃ token tail, e.render rest = token :: tail ∧ startsOperand token = true := by
  induction e using Tree.rec (motive_2 := fun _ => True) generalizing rest with
  | ident name | integer value | group inner => exact ⟨_, _, rfl, rfl⟩
  | field obj name ih | call func args ih =>
      apply head_wrap rfl
      intro bound
      exact ih (by simpa using bound) _
  | unary op operand | binary op lhs rhs => cases postfix_
  | nil | cons => trivial

theorem render_startsExpr (e : Tree) (rest : List TokenKind) :
    ∃ token tail, e.render rest = token :: tail ∧ startsExpr token = true := by
  induction e using Tree.rec (motive_2 := fun _ => True) generalizing rest with
  | ident name | integer value | group inner => exact ⟨_, _, rfl, rfl⟩
  | field obj name ih | call func args ih | binary op lhs rhs ih =>
      exact head_wrap rfl _ fun _ => ih _
  | unary op operand => cases op <;> exact ⟨_, _, rfl, rfl⟩
  | nil | cons => trivial

/-- The second token of an expression is a colon only behind a bare name. -/
theorem isNamedArg_render (e : Tree) (noColon : rest.head? ≠ some .colon) :
    isNamedArg (e.render rest) = false := by
  have wrapped : ∀ (tooLoose : Bool) (inner : Tree) (rest : List TokenKind),
      (tooLoose = false → isNamedArg (inner.render rest) = false) →
      isNamedArg (wrap tooLoose inner.render rest) = false := by
    intro tooLoose inner rest bare
    cases tooLoose with
    | true => rfl
    | false => exact bare rfl
  induction e using Tree.rec (motive_2 := fun _ => True) generalizing rest with
  | ident name =>
      cases rest with
      | nil => rfl
      | cons token rest =>
          cases token <;> first | rfl | exact absurd rfl noColon
  | integer value | group inner => rfl
  | field obj name ih | call func args ih => exact wrapped _ _ _ fun _ => ih (by simp)
  | unary op operand => cases op <;> rfl
  | binary op lhs rhs ih => exact wrapped _ _ _ fun _ => ih (by cases op <;> simp [infixToken])
  | nil | cons => trivial

/-- A bare name between parentheses. -/
def isNameInParens : List TokenKind → Bool
  | .ident _ :: .rParen :: _ => true
  | _ => false

theorem isNameInParens_render (e : Tree) (rest : List TokenKind)
    (closed : e.rank = 0 → rest.head? ≠ some .rParen) : isNameInParens (e.render rest) = false := by
  have wrapped : ∀ (tooLoose : Bool) (inner : Tree) (rest : List TokenKind),
      (tooLoose = false → isNameInParens (inner.render rest) = false) →
      isNameInParens (wrap tooLoose inner.render rest) = false := by
    intro tooLoose inner rest bare
    cases tooLoose with
    | true => rfl
    | false => exact bare rfl
  induction e using Tree.rec (motive_2 := fun _ => True) generalizing rest with
  | ident name =>
      cases rest with
      | nil => rfl
      | cons token rest =>
          cases token <;> first | rfl | exact absurd rfl (closed rfl)
  | integer value | group inner => rfl
  | field obj name ih | call func args ih => exact wrapped _ _ _ fun _ => ih _ (by simp)
  | unary op operand => cases op <;> rfl
  | binary op lhs rhs ih =>
      exact wrapped _ _ _ fun _ => ih _ (by cases op <;> simp [infixToken])
  | nil | cons => trivial

theorem isCCast_wrapped (e : Tree) (loose : 0 < e.rank) (rest : List TokenKind) :
    isCCast (.lParen :: e.render (.rParen :: rest)) = false := by
  have noName := isNameInParens_render e (.rParen :: rest) (by omega)
  cases tokens : e.render (.rParen :: rest) with
  | nil => rfl
  | cons first tail =>
      rw [tokens] at noName
      cases tail with
      | nil => cases first <;> rfl
      | cons second tail =>
          cases first <;> first | rfl | skip
          cases second <;> first | rfl | cases noName

variable {s : State}

section Operands

variable (r : Rec) {rest : List TokenKind} (errors : List ParseError) (depth : Nat)

variable {inside : List TokenKind}

theorem parsePrimaryExpr_ident (name : Ident)
    (kept : skipTypeArgsBeforeBrace rest = rest) (noLiteral : isStructLiteral rest = false) :
    parsePrimaryExpr r ⟨.ident name :: rest, errors, depth⟩ =
      some (.ok (.ident name), ⟨rest, errors, depth⟩) := by
  have start : parsePrimaryExpr r ⟨.ident name :: rest, errors, depth⟩ =
      parseIdentExpr r name ⟨rest, errors, depth⟩ := rfl
  rw [start]
  simp [parseIdentExpr, kept, noLiteral]

theorem parsePrimaryExpr_integer (value : Int) :
    parsePrimaryExpr r ⟨.integer value :: rest, errors, depth⟩ =
      some (.ok (.literal (.integer value)), ⟨rest, errors, depth⟩) :=
  rfl

theorem parsePrimaryExpr_paren {expr : Expr} (noLambda : isNamedArg inside = false)
    (noCast : isCCast (.lParen :: inside) = false) (noUnit : inside.head? ≠ some .rParen)
    (nonempty : inside ≠ [])
    (run : r.expr ⟨inside, errors, depth⟩ = some (.ok expr, ⟨.rParen :: rest, errors, depth⟩)) :
    parsePrimaryExpr r ⟨.lParen :: inside, errors, depth⟩ =
      some (.ok expr, ⟨rest, errors, depth⟩) := by
  have untyped : isTypedLambda (.lParen :: inside) = false := by
    cases inside with
    | nil => exact absurd rfl nonempty
    | cons first tail =>
        cases tail with
        | nil => cases first <;> rfl
        | cons second tail =>
            cases first <;> first | rfl | skip
            cases second <;> first | rfl | cases noLambda
  have inhabited : (State.peek ⟨inside, errors, depth⟩ == TokenKind.rParen) = false := by
    cases inside with
    | nil => exact absurd rfl nonempty
    | cons first tail => simpa using noUnit
  have start : parsePrimaryExpr r ⟨.lParen :: inside, errors, depth⟩ =
      parseParenExpr r ⟨.lParen :: inside, errors, depth⟩ := rfl
  rw [start]
  simp [parseParenExpr, parseTupleOrGrouped, untyped, noCast, inhabited, run, expect_cons_self]

/-- Tokens that continue a postfix expression. -/
def extendsPostfix : TokenKind → Bool
  | .dot | .colonColon | .lBracket | .dotDot | .dotDotDot | .lParen => true
  | _ => false

theorem parsePostfixChain_done (count : Nat) (expr : Expr) (ends : extendsPostfix s.peek = false)
    (noTypeArgs : isGenericTypeStaticCall s.rest = false) :
    parsePostfixChain r (count + 1) expr none s = some (.ok expr, s) := by
  have differs : ∀ token, extendsPostfix token = true → s.peek ≠ token := by
    intro token extends_ same
    rw [same, extends_] at ends
    cases ends
  simp [parsePostfixChain, parsePostfixOp, differs .dot rfl, differs .colonColon rfl,
    differs .lBracket rfl, differs .dotDot rfl, differs .dotDotDot rfl, differs .lParen rfl,
    noTypeArgs]

theorem parsePostfixChain_step (count : Nat) {expr expr' : Expr} {s' : State}
    (run : parsePostfixOp r expr none s = some (.ok (.inl (expr', none)), s')) :
    parsePostfixChain r (count + 1) expr none s = parsePostfixChain r count expr' none s' := by
  rw [parsePostfixChain, bind_of_ok run]

theorem isGenericTypeStaticCall_cons (token : TokenKind) (differs : token ≠ .less)
    (rest : List TokenKind) : isGenericTypeStaticCall (token :: rest) = false := by
  cases token <;> first | rfl | exact absurd rfl differs

theorem isGenericMethodCall_cons (token : TokenKind) (differs : token ≠ .less)
    (rest : List TokenKind) : isGenericMethodCall (token :: rest) = false := by
  cases token <;> first | rfl | exact absurd rfl differs

theorem parsePostfixOp_field (obj : Expr) (name : Ident) (noCall : rest.head? ≠ some .lParen)
    (noTypeArgs : isTypeAccess obj = false → isGenericMethodCall rest = false) :
    parsePostfixOp r obj none ⟨.dot :: .ident name :: rest, errors, depth⟩ =
      some (.ok (.inl (toExpr.member obj name, none)), ⟨rest, errors, depth⟩) := by
  have noParen : (State.peek ⟨rest, errors, depth⟩ == TokenKind.lParen) = false := by
    cases rest with
    | nil => rfl
    | cons first tail => simpa using noCall
  cases access : isTypeAccess obj with
  | true =>
      cases obj <;> first | cases access | skip
      simp [parsePostfixOp, parseDotPostfix, parseMethodName, toExpr.member, noParen, access]
  | false =>
      simp [parsePostfixOp, parseDotPostfix, parseMethodName, toExpr.member, noParen, access,
        noTypeArgs access]

theorem parsePostfixOp_method (obj : Expr) (name : Ident) {args : List Expr}
    (unnamed : isNamedArg inside = false)
    (run : parseArgs r ⟨inside, errors, depth⟩ = some (.ok args, ⟨rest, errors, depth⟩)) :
    parsePostfixOp r obj none ⟨.dot :: .ident name :: .lParen :: inside, errors, depth⟩ =
      some (.ok (.inl (.methodCall obj name args, none)), ⟨rest, errors, depth⟩) := by
  have noNames : hasNamedArgs (.lParen :: inside) = false := unnamed
  have noTypeArgs := isGenericMethodCall_cons .lParen (by simp) inside
  simp [parsePostfixOp, parseDotPostfix, parseMethodName, noNames, noTypeArgs, run]

theorem parsePostfixOp_call (func : Expr) {args : List Expr}
    (run : parseArgs r ⟨inside, errors, depth⟩ = some (.ok args, ⟨rest, errors, depth⟩)) :
    parsePostfixOp r func none ⟨.lParen :: inside, errors, depth⟩ =
      some (.ok (.inl (.call func args, none)), ⟨rest, errors, depth⟩) := by
  have noTypeArgs := isGenericTypeStaticCall_cons .lParen (by simp) inside
  simp [parsePostfixOp, noTypeArgs, run]

end Operands

/-! ## Places

An expression that binds too loosely for its place is read like a group. -/

/-- The expression at a place that takes ranks up to `bound`. -/
def place (bound : Nat) (e : Tree) : Tree :=
  if bound < e.rank then .group e else e

section Place

variable (bound : Nat) (e : Tree) (rest : List TokenKind)

theorem rank_place : (place bound e).rank ≤ bound := by
  rw [place]
  split
  · exact Nat.zero_le bound
  · omega

theorem toExpr_place : (place bound e).toExpr = e.toExpr := by
  rw [place]
  split <;> rfl

theorem render_place : (place bound e).render rest = wrap (bound < e.rank) e.render rest := by
  by_cases loose : bound < e.rank <;> simp [place, wrap, loose, render]

theorem links_place : (place 0 e).links = e.links := by
  cases e <;> rfl

theorem chain_place : (place bound e).chain = e.chain := by
  rw [place]
  split <;> rfl

theorem nesting_place : (place bound e).nesting = nesting.wrapped (bound < e.rank) e.nesting := by
  by_cases loose : bound < e.rank <;> simp [place, nesting.wrapped, loose, nesting]

theorem quiet_place : (place bound e).Quiet rest ↔ Quiet.quietIn (bound < e.rank) e.Quiet rest := by
  by_cases loose : bound < e.rank
  · have noCast := isCCast_wrapped e (by omega) rest
    simp [place, Quiet.quietIn, loose, Quiet, render, noCast]
  · simp [place, Quiet.quietIn, loose]

end Place

/-! ## Reading back -/

/-- Tokens behind an expression of a level that do not belong to it. -/
def Ends : Nat → List TokenKind → Prop
  | 0, rest => extendsPostfix (rest.headD .eof) = false ∧ rest.headD .eof ≠ .keyword .As
  | level + 1, rest => Ends level rest ∧ levelOp level (rest.headD .eof) = none

theorem extendsPostfix_of_isStop {token : TokenKind} (stop : isStop token = true) :
    extendsPostfix token = false ∧ token ≠ .keyword .As := by
  cases token <;> first | cases stop; exact ⟨rfl, by simp⟩ | cases stop

theorem levelOp_of_isStop {token : TokenKind} (stop : isStop token = true) (level : Nat) :
    levelOp level token = none := by
  rw [levelOp.eq_def]
  split <;> cases token <;> first | rfl | cases stop

theorem ends_of_isStop (stop : isStop (rest.headD .eof) = true) (level : Nat) :
    Ends level rest := by
  induction level with
  | zero => exact extendsPostfix_of_isStop stop
  | succ level ih => exact ⟨ih, levelOp_of_isStop stop level⟩

theorem levelOp_infixToken (op : BinaryOp) : levelOp (tableRow op) (infixToken op) = some op := by
  cases op <;> rfl

theorem ends_infixToken (op : BinaryOp) (rest : List TokenKind) :
    Ends (tableRow op) (infixToken op :: rest) := by
  cases op <;>
    simp [Ends, tableRow, infixToken, extendsPostfix, levelOp, multiplicativeOp, additiveOp,
      shiftOp, relationalOp, equalityOp, bitwiseAndOp, bitwiseXorOp, bitwiseOrOp, andOp]

theorem tableRow_lt (op : BinaryOp) : tableRow op < 10 := by
  cases op <;> decide

/-- What the reading of an expression takes: recursion, the limits of the parser
at the depth where it stands, and no look-ahead in the way. -/
structure Readable (fuel depth : Nat) (e : Tree) (rest : List TokenKind) : Prop where
  height_le : e.height ≤ fuel
  nesting_le : depth + e.nesting ≤ maxRecursionDepth
  chain_lt : e.chain < maxRecursionDepth
  quiet : e.Quiet rest

section Reading

variable (tokenize : String → Option (List TokenKind))

/-- A postfix expression is read up to the end of its chain. -/
def PostfixReads (e : Tree) : Prop :=
  ∀ ⦃fuel depth : Nat⦄ ⦃rest : List TokenKind⦄ (errors : List ParseError),
    Readable fuel depth e rest → e.rank = 0 →
    ((∃ obj name, e = .field obj name) → rest.head? ≠ some .lParen) →
    parsePostfixExpr (knot tokenize fuel) ⟨e.render rest, errors, depth⟩ =
      parsePostfixChain (knot tokenize fuel) (maxRecursionDepth - e.links) e.toExpr none
        ⟨rest, errors, depth⟩

/-- A unary expression is read. -/
def UnaryReads (e : Tree) : Prop :=
  ∀ ⦃fuel depth : Nat⦄ ⦃rest : List TokenKind⦄ (errors : List ParseError),
    Readable fuel depth e rest → e.rank ≤ 1 → Ends 0 rest →
    parseUnaryExpr (knot tokenize fuel) ⟨e.render rest, errors, depth⟩ =
      some (.ok e.toExpr, ⟨rest, errors, depth⟩)

/-- An expression is read at a level. -/
def LevelReads (level : Nat) (e : Tree) : Prop :=
  ∀ ⦃fuel depth : Nat⦄ ⦃rest : List TokenKind⦄ (errors : List ParseError),
    Readable fuel depth e rest → Ends level rest →
    parseLevel (knot tokenize fuel) level ⟨e.render rest, errors, depth⟩ =
      some (.ok e.toExpr, ⟨rest, errors, depth⟩)

/-- An expression is read as a left operand: the loop of the level goes on
behind it. -/
def LoopReads (level : Nat) (e : Tree) : Prop :=
  ∀ ⦃fuel depth : Nat⦄ ⦃rest : List TokenKind⦄ (errors : List ParseError)
    ⦃outcome : Except ParseError Expr × State⦄,
    Readable fuel depth e rest → Ends level rest →
    LoopsTo (parseOperator (parseLevel (knot tokenize fuel) level) (levelOp level)) e.toExpr
      ⟨rest, errors, depth⟩ outcome →
    parseLevel (knot tokenize fuel) (level + 1) ⟨e.render rest, errors, depth⟩ = some outcome

/-- A whole expression is read. -/
def ExprReads (e : Tree) : Prop :=
  ∀ ⦃fuel depth : Nat⦄ ⦃rest : List TokenKind⦄ (errors : List ParseError),
    Readable fuel (depth + 1) e rest → isStop (rest.headD .eof) = true →
    parseExpr (knot tokenize fuel) ⟨e.render rest, errors, depth⟩ =
      some (.ok e.toExpr, ⟨rest, errors, depth⟩)

/-- An expression is read wherever it stands. -/
structure Reads (e : Tree) : Prop where
  postfix_ : PostfixReads tokenize e
  unary : UnaryReads tokenize e
  loop : ∀ level, e.rank ≤ level + 2 → LoopReads tokenize level e

variable {tokenize}

variable {e : Tree}

theorem LevelReads.loop {level : Nat} (reads : LevelReads tokenize level e) :
    LoopReads tokenize level e := by
  intro fuel depth rest errors outcome readable ends rounds
  rw [parseLevel, parseBinary, bind_of_ok (reads errors readable ends)]
  exact rounds.loop

theorem LoopReads.level {level : Nat} (reads : LoopReads tokenize level e) :
    LevelReads tokenize (level + 1) e := by
  intro fuel depth rest errors readable ends
  apply reads errors readable ends.1
  apply LoopsTo.done
  have noOp : levelOp level (State.peek ⟨rest, errors, depth⟩) = none := ends.2
  simp [parseOperator, noOp]

theorem UnaryReads.level (reads : UnaryReads tokenize e) (tight : e.rank ≤ 1) :
    LevelReads tokenize 0 e := by
  intro fuel depth rest errors readable ends
  rw [parseLevel, parseAsExpr, bind_of_ok (reads errors readable tight ends)]
  apply LoopsTo.loop
  apply LoopsTo.done
  have noAs : State.peek ⟨rest, errors, depth⟩ ≠ .keyword .As := ends.2
  simp [parseAs, noAs]

theorem LevelReads.mono {level level' : Nat} (looser : level ≤ level')
    (reads : LevelReads tokenize level e) : LevelReads tokenize level' e := by
  induction looser with
  | refl => exact reads
  | step _ ih => exact ih.loop.level

theorem Reads.level {e : Tree} (reads : Reads tokenize e) {level : Nat}
    (tight : e.rank ≤ level + 1) : LevelReads tokenize level e := by
  cases level with
  | zero => exact reads.unary.level tight
  | succ level => exact (reads.loop level tight).level

theorem UnaryReads.loops (reads : UnaryReads tokenize e) (tight : e.rank ≤ 1) (level : Nat) :
    LoopReads tokenize level e :=
  ((reads.level tight).mono (Nat.zero_le level)).loop

theorem rank_le (e : Tree) : e.rank ≤ 11 := by
  cases e with
  | binary op lhs rhs =>
      have bound := tableRow_lt op
      rw [rank]
      omega
  | _ => simp [rank]

/-- Behind a stop token the levels above the binary operators add nothing. -/
theorem parseAssignExpr_of_level {r : Rec} {s' : State} {expr : Expr}
    (run : parseLevel r 10 s = some (.ok expr, s')) (stop : isStop s'.peek = true) :
    parseAssignExpr r s = some (.ok expr, s') := by
  have differs : ∀ token, isStop token = false → s'.peek ≠ token := by
    intro token noStop same
    rw [same, noStop] at stop
    cases stop
  have noCompound : compoundOp s'.peek = none := by
    cases token : s'.peek <;> rw [token] at stop <;> first | rfl | cases stop
  have ternary : parseTernaryExpr r s = some (.ok expr, s') := by
    rw [parseTernaryExpr, parseOrExpr, bind_of_ok run]
    simp [differs .question rfl]
  rw [parseAssignExpr, bind_of_ok ternary]
  simp [parseAssignTail, differs .fatArrow rfl, differs .equals rfl, noCompound]

theorem Reads.expr (reads : Reads tokenize e) : ExprReads tokenize e := by
  intro fuel depth rest errors readable stop
  have level : LevelReads tokenize 10 e := reads.level (rank_le e)
  have shallow : depth + 1 ≤ maxRecursionDepth := by
    have bound := readable.nesting_le
    omega
  apply nested_of_run _ _ _ shallow
  exact parseAssignExpr_of_level (level errors readable (ends_of_isStop stop 10)) stop

/-! ### Groups and arguments -/

variable {fuel depth : Nat}

theorem ExprReads.group (reads : ExprReads tokenize e) : PostfixReads tokenize (.group e) := by
  intro fuel depth rest errors readable _ _
  have height_le := readable.height_le
  have nesting_le := readable.nesting_le
  have quiet := readable.quiet
  simp only [height, nesting, Quiet] at height_le nesting_le quiet
  rcases fuel with _ | fuel
  · omega
  have inner : Readable fuel (depth + 1) e (.rParen :: rest) :=
    { height_le := by omega
      nesting_le := by omega
      chain_lt := readable.chain_lt
      quiet := quiet.1 }
  have run := reads errors inner rfl
  rcases render_startsExpr e (.rParen :: rest) with ⟨token, tail, tokens, starts⟩
  have noUnit : (e.render (.rParen :: rest)).head? ≠ some .rParen := by
    rw [tokens]
    intro same
    cases same
    cases starts
  have primary := parsePrimaryExpr_paren (knot tokenize (fuel + 1)) errors depth
    (isNamedArg_render e (by simp)) quiet.2.1 noUnit (by simp [tokens]) run
  rw [parsePostfixExpr, render, bind_of_ok primary]
  rfl

theorem length_render_le (e : Tree) (rest : List TokenKind) :
    rest.length ≤ (e.render rest).length := by
  have wrapped : ∀ (tooLoose : Bool) (inner : Tree) (rest : List TokenKind),
      (∀ rest, rest.length ≤ (inner.render rest).length) →
      rest.length ≤ (wrap tooLoose inner.render rest).length := by
    intro tooLoose inner rest longer
    cases tooLoose with
    | true =>
        have bound := longer (.rParen :: rest)
        simp only [wrap, List.length_cons, if_true] at bound ⊢
        omega
    | false => exact longer rest
  induction e using Tree.rec
      (motive_2 := fun args => ∀ rest,
        rest.length ≤ (render.renderArgs args rest).length ∧
          rest.length ≤ (render.renderMoreArgs args rest).length) generalizing rest with
  | ident name => simp [render]
  | integer value => simp [render]
  | group inner ih =>
      have bound := ih (.rParen :: rest)
      simp only [render, List.length_cons] at bound ⊢
      omega
  | field obj name ih =>
      have bound := wrapped (0 < obj.rank) obj (.dot :: .ident name :: rest) ih
      simp only [render, List.length_cons] at bound ⊢
      omega
  | call func args ihFunc ihArgs =>
      have inside := (ihArgs (.rParen :: rest)).1
      have bound := wrapped (0 < func.rank) func
        (.lParen :: render.renderArgs args (.rParen :: rest)) ihFunc
      simp only [render, List.length_cons] at bound inside ⊢
      omega
  | unary op operand ih =>
      have bound := wrapped (1 < operand.rank) operand rest ih
      simp only [render, List.length_cons] at bound ⊢
      omega
  | binary op lhs rhs ihLhs ihRhs =>
      have right := wrapped (tableRow op + 1 < rhs.rank) rhs rest ihRhs
      have left := wrapped (tableRow op + 2 < lhs.rank) lhs
        (infixToken op :: wrap (tableRow op + 1 < rhs.rank) rhs.render rest) ihLhs
      simp only [render, List.length_cons] at left right ⊢
      omega
  | nil => simp [render.renderArgs, render.renderMoreArgs]
  | cons arg args ihArg ihArgs =>
      rename_i rest
      have more := (ihArgs rest).2
      have first := ihArg (render.renderMoreArgs args rest)
      simp only [render.renderArgs, render.renderMoreArgs, List.length_cons]
      omega

theorem loopsTo_moreArgs (errors : List ParseError) (args : List Tree)
    (reads : ∀ arg ∈ args, ExprReads tokenize arg)
    (readable : ∀ arg ∈ args, ∀ rest, arg.Quiet rest → Readable fuel (depth + 1) arg rest)
    (quiet : Quiet.quietArgs args (.rParen :: rest)) (items : List Expr) :
    LoopsTo (commaItem (parseExpr (knot tokenize fuel)) none) items
      ⟨render.renderMoreArgs args (.rParen :: rest), errors, depth⟩
      (.ok (items ++ toExpr.toExprs args), ⟨.rParen :: rest, errors, depth⟩) := by
  induction args generalizing items with
  | nil =>
      apply LoopsTo.done
      simp [commaItem, consume, render.renderMoreArgs, toExpr.toExprs]
  | cons arg args ih =>
      have stop : isStop ((render.renderMoreArgs args (.rParen :: rest)).headD .eof) = true := by
        cases args <;> rfl
      have run := reads arg List.mem_cons_self errors
        (readable arg List.mem_cons_self _ quiet.1) stop
      have shorter := length_render_le arg (render.renderMoreArgs args (.rParen :: rest))
      have rounds := ih (fun arg mem => reads arg (List.mem_cons_of_mem _ mem))
        (fun arg mem => readable arg (List.mem_cons_of_mem _ mem)) quiet.2
        (items ++ [arg.toExpr])
      rw [List.append_assoc] at rounds
      apply LoopsTo.next _ _ rounds
      · simp [commaItem, consume, render.renderMoreArgs, run]
      · simp only [render.renderMoreArgs, List.length_cons]
        omega

theorem parseArgs_render (errors : List ParseError) (args : List Tree)
    (reads : ∀ arg ∈ args, ExprReads tokenize arg)
    (readable : ∀ arg ∈ args, ∀ rest, arg.Quiet rest → Readable fuel (depth + 1) arg rest)
    (quiet : Quiet.quietArgs args (.rParen :: rest)) : parseArgs (knot tokenize (fuel + 1))
        ⟨render.renderArgs args (.rParen :: rest), errors, depth⟩ =
      some (.ok (toExpr.toExprs args), ⟨rest, errors, depth⟩) := by
  cases args with
  | nil => simp [parseArgs, commaList, render.renderArgs, toExpr.toExprs, expect]
  | cons arg args =>
      have stop : isStop ((render.renderMoreArgs args (.rParen :: rest)).headD .eof) = true := by
        cases args <;> rfl
      have run : (knot tokenize (fuel + 1)).expr
          ⟨arg.render (render.renderMoreArgs args (.rParen :: rest)), errors, depth⟩ = _ :=
        reads arg List.mem_cons_self errors (readable arg List.mem_cons_self _ quiet.1) stop
      have rounds := loopsTo_moreArgs errors args
        (fun arg mem => reads arg (List.mem_cons_of_mem _ mem))
        (fun arg mem => readable arg (List.mem_cons_of_mem _ mem)) quiet.2 [arg.toExpr]
      have tail : commaTail (knot tokenize (fuel + 1)).expr none [arg.toExpr] _ = _ :=
        rounds.loop
      rcases render_startsExpr arg (render.renderMoreArgs args (.rParen :: rest)) with
        ⟨token, tokens, rendered, starts⟩
      have noClose : State.peek ⟨arg.render (render.renderMoreArgs args (.rParen :: rest)),
          errors, depth⟩ ≠ .rParen := by
        rw [rendered, State.peek_cons]
        intro same
        rw [same] at starts
        cases starts
      simp [parseArgs, commaList, commaList1, render.renderArgs, noClose, run, tail,
        expect_cons_self, toExpr.toExprs]

theorem links_le_chain (e : Tree) : e.links ≤ e.chain := by
  cases e with
  | field obj name | call func args => exact Nat.le_max_left _ _
  | _ => exact Nat.zero_le _

theorem noTypeArgs_of_quiet (postfix_ : e.rank = 0) (quiet : e.Quiet rest) :
    isGenericTypeStaticCall rest = false := by
  cases e with
  | ident name | group inner | field obj name | call func args => exact quiet.2.2
  | integer value => exact quiet
  | unary op operand | binary op lhs rhs => cases postfix_

theorem PostfixReads.unary (postfix_ : e.rank = 0) (reads : PostfixReads tokenize e) :
    UnaryReads tokenize e := by
  intro fuel depth rest errors readable _ ends
  rcases render_startsOperand e postfix_ rest with ⟨token, tail, tokens, starts⟩
  have noPrefix : parseUnaryExpr (knot tokenize fuel) ⟨e.render rest, errors, depth⟩ =
      parsePostfixExpr (knot tokenize fuel) ⟨e.render rest, errors, depth⟩ := by
    rw [tokens]
    cases token <;> first | cases starts; simp [parseUnaryExpr, prefixOp] | cases starts
  have noCall : rest.head? ≠ some .lParen := by
    intro call
    have extended := ends.1
    rw [List.headD_eq_head?_getD, call] at extended
    cases extended
  have enough : maxRecursionDepth - e.links = (maxRecursionDepth - e.links - 1) + 1 := by
    have chain_lt := readable.chain_lt
    have links_le := links_le_chain e
    omega
  rw [noPrefix, reads errors readable postfix_ fun _ => noCall, enough]
  exact parsePostfixChain_done _ _ _ ends.1 (noTypeArgs_of_quiet postfix_ readable.quiet)

theorem PostfixReads.reads (postfix_ : e.rank = 0) (reads : PostfixReads tokenize e) :
    Reads tokenize e :=
  { postfix_ := reads
    unary := reads.unary postfix_
    loop := fun level _ => (reads.unary postfix_).loops (by omega) level }

theorem Reads.place (reads : Reads tokenize e) (bound : Nat) : Reads tokenize (place bound e) := by
  rw [Precedence.place]
  split
  · exact reads.expr.group.reads rfl
  · exact reads

theorem Readable.place {bound : Nat} (height_lt : e.height < fuel)
    (nesting_le : depth + nesting.wrapped (bound < e.rank) e.nesting ≤ maxRecursionDepth)
    (chain_lt : e.chain < maxRecursionDepth) (quiet : Quiet.quietIn (bound < e.rank) e.Quiet rest) :
    Readable fuel depth (place bound e) rest :=
  { height_le := by
      rw [Precedence.place]
      split
      · exact height_lt
      · exact Nat.le_of_lt height_lt
    nesting_le := by
      rw [nesting_place]
      exact nesting_le
    chain_lt := by
      rw [chain_place]
      exact chain_lt
    quiet := (quiet_place bound e rest).mpr quiet }

/-! ### All expressions -/

variable {args : List Tree} {obj arg : Tree}

theorem ident_reads (name : Ident) : PostfixReads tokenize (.ident name) := by
  intro fuel depth rest errors readable _ _
  rw [parsePostfixExpr, render, bind_of_ok
    (parsePrimaryExpr_ident _ errors depth name readable.quiet.1 readable.quiet.2.1)]
  rfl

theorem integer_reads (value : Int) : PostfixReads tokenize (.integer value) := by
  intro fuel depth rest errors readable _ _
  rw [parsePostfixExpr, render, bind_of_ok (parsePrimaryExpr_integer _ errors depth value)]
  rfl

theorem operand_reads (reads : Reads tokenize obj) {links : Nat} (errors : List ParseError)
    (readable : Readable fuel depth (place 0 obj) rest) (links_eq : links = obj.links + 1)
    (links_lt : links < maxRecursionDepth)
    (noCall : (∃ inner name, obj = .field inner name) → rest.head? ≠ some .lParen) :
    parsePostfixExpr (knot tokenize fuel)
        ⟨wrap (0 < obj.rank) obj.render rest, errors, depth⟩ =
      parsePostfixChain (knot tokenize fuel) (maxRecursionDepth - links + 1) obj.toExpr none
        ⟨rest, errors, depth⟩ := by
  have postfix_ : (place 0 obj).rank = 0 := Nat.le_zero.mp (rank_place 0 obj)
  have noCall' : (∃ inner name, place 0 obj = .field inner name) → rest.head? ≠ some .lParen := by
    rintro ⟨inner, name, same⟩
    apply noCall
    rw [Precedence.place] at same
    split at same
    · cases same
    · exact ⟨inner, name, same⟩
  have run := (reads.place 0).postfix_ errors readable postfix_ noCall'
  have count : maxRecursionDepth - obj.links = maxRecursionDepth - links + 1 := by
    omega
  rw [render_place, links_place, toExpr_place, count] at run
  exact run

theorem field_reads (name : Ident) (reads : Reads tokenize obj) :
    PostfixReads tokenize (.field obj name) := by
  intro fuel depth rest errors readable _ noCall
  have height_le := readable.height_le
  have chain_lt := readable.chain_lt
  have quiet := readable.quiet
  simp only [height, chain, Quiet] at height_le chain_lt quiet
  have inner : Readable fuel depth (place 0 obj) (.dot :: .ident name :: rest) :=
    Readable.place (by omega) readable.nesting_le (by omega) quiet.1
  have links_lt : (Tree.field obj name).links < maxRecursionDepth := by omega
  rw [render, operand_reads reads errors inner rfl links_lt (by simp),
    parsePostfixChain_step _ _ (parsePostfixOp_field _ errors depth obj.toExpr name
      (noCall ⟨obj, name, rfl⟩) quiet.2.1)]
  rfl

theorem height_le_heights (mem : arg ∈ args) : arg.height ≤ height.heights args := by
  induction mem with
  | head => exact Nat.le_max_left _ _
  | tail _ _ ih => exact Nat.le_trans ih (Nat.le_max_right _ _)

theorem nesting_le_nestings (mem : arg ∈ args) : arg.nesting + 1 ≤ nesting.nestings args := by
  induction mem with
  | head => exact Nat.le_max_left _ _
  | tail _ _ ih => exact Nat.le_trans ih (Nat.le_max_right _ _)

theorem chain_le_chains (mem : arg ∈ args) : arg.chain ≤ chain.chains args := by
  induction mem with
  | head => exact Nat.le_max_left _ _
  | tail _ _ ih => exact Nat.le_trans ih (Nat.le_max_right _ _)

theorem args_read {func : Tree} (reads : ∀ arg ∈ args, Reads tokenize arg)
    (errors : List ParseError) (readable : Readable fuel depth (.call func args) rest) :
    parseArgs (knot tokenize fuel) ⟨render.renderArgs args (.rParen :: rest), errors, depth⟩ =
      some (.ok (toExpr.toExprs args), ⟨rest, errors, depth⟩) := by
  have height_le := readable.height_le
  have nesting_le := readable.nesting_le
  have chain_lt := readable.chain_lt
  simp only [height, nesting, chain] at height_le nesting_le chain_lt
  rcases fuel with _ | fuel
  · omega
  apply parseArgs_render errors args (fun arg mem => (reads arg mem).expr) _ readable.quiet.2.1
  intro arg mem rest quiet
  have argHeight := height_le_heights mem
  have argNesting := nesting_le_nestings mem
  have argChain := chain_le_chains mem
  exact
    { height_le := by omega
      nesting_le := by omega
      chain_lt := by omega
      quiet }

theorem isNamedArg_renderArgs (args : List Tree) (rest : List TokenKind) :
    isNamedArg (render.renderArgs args (.rParen :: rest)) = false := by
  cases args with
  | nil => rfl
  | cons arg args =>
      apply isNamedArg_render
      cases args <;> simp [render.renderMoreArgs]

theorem method_reads (name : Ident) (readsObj : Reads tokenize obj)
    (readsArgs : ∀ arg ∈ args, Reads tokenize arg) :
    PostfixReads tokenize (.call (.field obj name) args) := by
  intro fuel depth rest errors readable _ _
  have height_le : max (obj.height + 1) (height.heights args) + 1 ≤ fuel := readable.height_le
  have nesting_le : depth + max (nesting.wrapped (0 < obj.rank) obj.nesting)
      (nesting.nestings args) ≤ maxRecursionDepth := readable.nesting_le
  have chain_lt : max (obj.links + 1) (max (max (obj.links + 1) obj.chain) (chain.chains args)) <
      maxRecursionDepth := readable.chain_lt
  have inner : Readable fuel depth (place 0 obj)
      (.dot :: .ident name :: .lParen :: render.renderArgs args (.rParen :: rest)) :=
    Readable.place (by omega) (by omega) (by omega) readable.quiet.1.1
  have run := operand_reads readsObj errors inner rfl (by omega) (by simp)
  have op := parsePostfixOp_method (knot tokenize fuel) errors depth obj.toExpr name
    (isNamedArg_renderArgs args rest) (args_read readsArgs errors readable)
  rw [parsePostfixChain_step _ _ op] at run
  exact run

theorem call_reads {func : Tree} (readsFunc : Reads tokenize func)
    (noMethod : ∀ obj name, func ≠ .field obj name) (readsArgs : ∀ arg ∈ args, Reads tokenize arg) :
    PostfixReads tokenize (.call func args) := by
  intro fuel depth rest errors readable _ _
  have height_le := readable.height_le
  have nesting_le := readable.nesting_le
  have chain_lt := readable.chain_lt
  have quiet := readable.quiet
  simp only [height, nesting, chain, Quiet] at height_le nesting_le chain_lt quiet
  have links_eq : (Tree.call func args).links = func.links + 1 := by
    cases func with
    | field obj name => exact absurd rfl (noMethod obj name)
    | _ => rfl
  have inner : Readable fuel depth (place 0 func)
      (.lParen :: render.renderArgs args (.rParen :: rest)) :=
    Readable.place (by omega) (by omega) (by omega) quiet.1
  have noCall : (∃ obj name, func = .field obj name) →
      (TokenKind.lParen :: render.renderArgs args (.rParen :: rest)).head? ≠ some .lParen := by
    rintro ⟨obj, name, same⟩
    exact absurd same (noMethod obj name)
  have expr_eq : (Tree.call func args).toExpr = .call func.toExpr (toExpr.toExprs args) := by
    cases func with
    | field obj name => exact absurd rfl (noMethod obj name)
    | _ => rfl
  have op := parsePostfixOp_call (knot tokenize fuel) errors depth func.toExpr
    (args_read readsArgs errors readable)
  rw [render, operand_reads readsFunc errors inner links_eq (by omega) noCall,
    parsePostfixChain_step _ _ op, expr_eq]

theorem parseUnaryExpr_prefix {r : Rec} (op : UnaryOp) {rest' : List TokenKind}
    {errors : List ParseError} {expr : Expr}
    (run : r.unaryExpr ⟨rest, errors, depth⟩ = some (.ok expr, ⟨rest', errors, depth⟩)) :
    parseUnaryExpr r ⟨prefixToken op :: rest, errors, depth⟩ =
      some (.ok (.unary op expr), ⟨rest', errors, depth⟩) := by
  cases op <;> simp [prefixToken, parseUnaryExpr, prefixOp, run]

theorem unary_reads (op : UnaryOp) {operand : Tree} (reads : Reads tokenize operand) :
    UnaryReads tokenize (.unary op operand) := by
  intro fuel depth rest errors readable _ ends
  have height_le := readable.height_le
  have nesting_le := readable.nesting_le
  have chain_lt := readable.chain_lt
  have quiet := readable.quiet
  simp only [height, nesting, chain, Quiet] at height_le nesting_le chain_lt quiet
  rcases fuel with _ | fuel
  · omega
  have inner : Readable fuel depth (place 1 operand) rest :=
    Readable.place (by omega) nesting_le chain_lt quiet
  have run := (reads.place 1).unary errors inner (rank_place 1 operand) ends
  rw [render_place, toExpr_place] at run
  exact parseUnaryExpr_prefix op run

theorem binary_reads (op : BinaryOp) {lhs rhs : Tree} (readsLhs : Reads tokenize lhs)
    (readsRhs : Reads tokenize rhs) :
    LoopReads tokenize (tableRow op) (.binary op lhs rhs) := by
  intro fuel depth rest errors outcome readable ends rounds
  have height_le := readable.height_le
  have nesting_le := readable.nesting_le
  have chain_lt := readable.chain_lt
  have quiet := readable.quiet
  simp only [height, nesting, chain, Quiet] at height_le nesting_le chain_lt quiet
  have right : Readable fuel depth (place (tableRow op + 1) rhs) rest :=
    Readable.place (by omega) (by omega) (by omega) quiet.2
  have rhsRun := (readsRhs.place (tableRow op + 1)).level (rank_place _ rhs) errors right ends
  rw [render_place, toExpr_place] at rhsRun
  have left : Readable fuel depth (place (tableRow op + 2) lhs)
      (infixToken op :: wrap (tableRow op + 1 < rhs.rank) rhs.render rest) :=
    Readable.place (by omega) (by omega) (by omega) quiet.1
  have round : parseOperator (parseLevel (knot tokenize fuel) (tableRow op))
      (levelOp (tableRow op)) lhs.toExpr
      ⟨infixToken op :: wrap (tableRow op + 1 < rhs.rank) rhs.render rest, errors, depth⟩ =
        some (.ok (.inl (Tree.binary op lhs rhs).toExpr), ⟨rest, errors, depth⟩) := by
    simp [parseOperator, levelOp_infixToken, rhsRun, toExpr]
  have shorter := length_render_le (place (tableRow op + 1) rhs) rest
  rw [render_place] at shorter
  have lhsRounds := LoopsTo.next round (by simp only [List.length_cons]; omega) rounds
  rw [← toExpr_place (tableRow op + 2) lhs] at lhsRounds
  have lhsRun := (readsLhs.place (tableRow op + 2)).loop (tableRow op) (rank_place _ lhs)
    errors left (ends_infixToken op _) lhsRounds
  rw [render_place] at lhsRun
  exact lhsRun

theorem UnaryReads.reads {op : UnaryOp} {operand : Tree}
    (unary : UnaryReads tokenize (.unary op operand)) : Reads tokenize (.unary op operand) :=
  { postfix_ := by
      intro fuel depth rest errors _ postfix_
      cases postfix_
    unary
    loop := fun level _ => unary.loops (Nat.le_refl 1) level }

theorem LoopReads.reads {op : BinaryOp} {lhs rhs : Tree}
    (reads : LoopReads tokenize (tableRow op) (.binary op lhs rhs)) :
    Reads tokenize (.binary op lhs rhs) :=
  { postfix_ := by
      intro fuel depth rest errors _ postfix_
      cases postfix_
    unary := by
      intro fuel depth rest errors _ unary
      simp only [rank] at unary
      omega
    loop := by
      intro level loose
      have looser : tableRow op ≤ level := by
        simp only [rank] at loose
        omega
      rcases Nat.eq_or_lt_of_le looser with same | less
      · exact same ▸ reads
      · exact (reads.level.mono less).loop }

/-- Every expression of the precedence grammar is read wherever it stands. -/
theorem reads : ∀ e : Tree, Reads tokenize e
  | .ident name => (ident_reads name).reads rfl
  | .integer value => (integer_reads value).reads rfl
  | .group inner => (reads inner).expr.group.reads rfl
  | .field obj name => (field_reads name (reads obj)).reads rfl
  | .call func args => by
      by_cases method : ∃ obj name, func = .field obj name
      · rcases method with ⟨obj, name, rfl⟩
        exact (method_reads name (reads obj) fun arg _ => reads arg).reads rfl
      · have noMethod : ∀ obj name, func ≠ .field obj name := by
          intro obj name same
          exact method ⟨obj, name, same⟩
        exact (call_reads (reads func) noMethod fun arg _ => reads arg).reads rfl
  | .unary op operand => (unary_reads op (reads operand)).reads
  | .binary op lhs rhs => (binary_reads op (reads lhs) (reads rhs)).reads

/-- `parse_expr` reads the rendering of an expression back and stops where it
ends. -/
theorem parseExpr_render (fuel depth : Nat) (e : Tree) (rest : List TokenKind)
    (errors : List ParseError) (readable : Readable fuel (depth + 1) e rest)
    (stop : isStop (rest.headD .eof) = true) :
    parseExpr (knot tokenize fuel) ⟨e.render rest, errors, depth⟩ =
      some (.ok e.toExpr, ⟨rest, errors, depth⟩) :=
  (reads e).expr errors readable stop

end Reading

/-- `x.f < y && g(-1)` is read back in front of a semicolon. -/
theorem parseExpr_render_comparison :
    parseExpr (knot (fun _ => none) 6)
        ⟨[.ident "x", .dot, .ident "f", .less, .ident "y", .ampAmp, .ident "g", .lParen, .minus,
          .integer 1, .rParen, .semicolon], [], 0⟩ =
      some (.ok (.binary .and
          (.binary .lt (.fieldAccess (.ident "x") "f") (.ident "y"))
          (.call (.ident "g") [.unary .neg (.literal (.integer 1))])),
        ⟨[.semicolon], [], 0⟩) :=
  parseExpr_render 6 0
    (.binary .and (.binary .lt (.field (.ident "x") "f") (.ident "y"))
      (.call (.ident "g") [.unary .neg (.integer 1)]))
    [.semicolon] []
    { height_le := by decide
      nesting_le := by decide
      chain_lt := by decide
      quiet := ⟨⟨⟨⟨rfl, rfl, rfl⟩, fun _ => rfl, rfl⟩, rfl, rfl, rfl⟩,
        ⟨rfl, rfl, rfl⟩, ⟨rfl, trivial⟩, rfl⟩ }
    rfl

/-- A group around the name of a primitive type is a cast: `(Int64) - x` is not
read as a difference. -/
theorem cast_not_render :
    ∃ (e : Tree) (rest : List TokenKind), isStop (rest.headD .eof) = true ∧
      ∀ tokenize fuel, parseExpr (knot tokenize fuel) ⟨e.render rest, [], 0⟩ ≠
        some (.ok e.toExpr, ⟨rest, [], 0⟩) := by
  refine ⟨.binary .sub (.group (.ident "Int64")) (.ident "x"), [.semicolon], rfl, ?_⟩
  intro tokenize fuel run
  have cast : ∀ fuel, parseExpr (knot tokenize (fuel + 2))
      ⟨[.lParen, .ident "Int64", .rParen, .minus, .ident "x", .semicolon], [], 0⟩ =
        some (.ok (.cast (.unary .neg (.ident "x")) .int64), ⟨[.semicolon], [], 0⟩) :=
    fun _ => rfl
  match fuel with
  | 0 => cases run
  | 1 => cases run
  | fuel + 2 =>
      have same := (cast fuel).symm.trans run
      simp [toExpr] at same

end Tinox.Parser.Precedence
