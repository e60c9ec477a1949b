import Tinox.Parser.Types

/-!
# Expressions

The precedence levels from assignment down to primary expressions, and the
look-aheads that tell generic calls and struct literals from comparisons and
blocks.
-/

namespace Tinox.Parser

open Tinox.Syntax Parse

/-- What a token adds to the nesting depth of `<..>`. -/
def angle : TokenKind → Int
  | .less => 1
  | .greater => -1
  | .greaterGreater => -2
  | _ => 0

/-- The tokens behind the `>` that closes `<..>`, searched up to the end of the
token list. -/
def scanAngles : Int → List TokenKind → Option (List TokenKind)
  | depth, [] => if depth ≤ 0 then some [] else none
  | depth, token :: rest =>
      if depth ≤ 0 then some (token :: rest) else scanAngles (depth + angle token) rest

/-- The tokens left when `<..>` is skipped, at most up to the end of the file. -/
def skipAngles : Int → List TokenKind → List TokenKind
  | _, [] => []
  | depth, token :: rest =>
      if depth ≤ 0 || token == .eof then token :: rest else skipAngles (depth + angle token) rest

/-- The tokens behind `<Type..>`, if the tokens start like that. -/
def behindTypeArgs : List TokenKind → Option (List TokenKind)
  | .less :: .ident _ :: rest => scanAngles 1 rest
  | _ => none

/-- `is_generic_type_static_call`. -/
def isGenericTypeStaticCall (tokens : List TokenKind) : Bool :=
  (behindTypeArgs tokens).any fun rest => rest.head? == some .colonColon

/-- `is_generic_method_call`. -/
def isGenericMethodCall (tokens : List TokenKind) : Bool :=
  (behindTypeArgs tokens).any fun rest => rest.head? == some .lParen

/-- Whether the tokens start like the braces of a struct literal. -/
def isStructLiteral : List TokenKind → Bool
  | .lBrace :: .rBrace :: _ => true
  | .lBrace :: .ident _ :: .colon :: _ => true
  | _ => false

/-- Whether the tokens start like `(name :`. -/
def isTypedLambda : List TokenKind → Bool
  | .lParen :: .ident _ :: .colon :: _ => true
  | _ => false

/-- Type names of C-style casts. -/
def isPrimitive (name : Ident) : Bool :=
  name ∈ ["Int8", "Int16", "Int32", "Int64", "UInt8", "UInt16", "UInt32", "UInt64", "Float32",
    "Float64", "Bool", "Char", "String"]

/-- Tokens that can start the operand of a C-style cast. -/
def canStartCastOperand : TokenKind → Bool
  | .ident _ | .integer _ | .float _ | .minus | .bang | .lParen | .keyword .This => true
  | _ => false

/-- Whether the tokens start like `(Type) operand`, `Type` being primitive. -/
def isCCast : List TokenKind → Bool
  | .lParen :: .ident name :: .rParen :: next :: _ => isPrimitive name && canStartCastOperand next
  | _ => false

/-- Whether the tokens start with an identifier and a colon. -/
def isNamedArg : List TokenKind → Bool
  | .ident _ :: .colon :: _ => true
  | _ => false

/-- Whether the tokens start like `(name:`. -/
def hasNamedArgs : List TokenKind → Bool
  | .lParen :: rest => isNamedArg rest
  | _ => false

/-- Whether an expression is a name that starts with an upper-case letter.
Names are ASCII. -/
def isTypeAccess : Expr → Bool
  | .ident name => name.toList.head?.any Char.isUpper
  | _ => false

section Grammar

variable (r : Rec)

/-- One statement of a block.  After an error the parser goes on behind it. -/
def parseBlockStmt (stmts : List Stmt) : Parse (List Stmt ⊕ List Stmt) :=
  recover r.stmt (fun stmt => return .inl (stmts ++ [stmt])) (do
    synchronize
    if ← check .rBrace then
      return .inr stmts
    else
      return .inl stmts)

/-- `parse_block_stmts`. -/
def parseBlockStmts : Parse (List Stmt) :=
  loop (fun stmts => do
    if (← check .rBrace) || (← isAtEnd) then
      return .inr stmts
    else
      parseBlockStmt r stmts) []

/-- The statements of `parse_block`. -/
def parseBlockBody : Parse (List Stmt) := do
  expect .lBrace
  let stmts ← parseBlockStmts r
  expect .rBrace
  return stmts

/-- `parse_block`. -/
def parseBlock : Parse Stmt := do
  return .block (← parseBlockBody r)

/-- Arguments of a call, behind `(`. -/
def parseArgs : Parse (List Expr) := do
  let args ← commaList r.expr .rParen
  expect .rParen
  return args

/-- Skip the name of a named argument. -/
def skipArgName : Parse Unit := do
  if ← get fun s => isNamedArg s.rest then
    bump
    bump

/-- An argument of an enum value, with an optional name. -/
def parseNamedArg : Parse Expr := do
  skipArgName
  r.expr

/-- Arguments of an enum value, behind `(`. -/
def parseNamedArgs : Parse (List Expr) := do
  let args ← commaListTrailing (parseNamedArg r) .rParen
  expect .rParen
  return args

/-- Type arguments, behind `<`. -/
def parseTypeArgs : Parse (List Ty) := do
  let args ← commaList1 r.type
  expectGenericClose
  return args

/-- Parts of an interpolated string are concatenated. -/
def parseInterpParts : List InterpPart → Option Expr → Parse Expr
  | [], joined => return joined.getD (.literal (.string ""))
  | part :: parts, joined => do
      let next ← match part with
        | .str text => pure (Expr.literal (.string text))
        | .expr source => fun s =>
            match r.exprStr source with
            | none => none
            | some (.ok e) => some (.ok (.call (.ident "toString") [e]), s)
            | some (.error e) => some (.error e, s)
      parseInterpParts parts (some (match joined with
        | none => next
        | some lhs => .binary .add lhs next))

/-- An entry `key => value` of a map literal. -/
def parseMapEntry : Parse (Expr × Expr) := do
  let key ← r.expr
  expect .fatArrow
  let value ← r.expr
  return (key, value)

/-- A map literal, behind `@`. -/
def parseMapLiteral : Parse Expr := do
  expect .lBrace
  let entries ← commaListTrailing (parseMapEntry r) .rBrace
  expect .rBrace
  return .mapLiteral entries

/-- An array literal, behind `[`. -/
def parseArrayLiteral : Parse Expr := do
  let elems ← commaListTrailing r.expr .rBracket
  expect .rBracket
  return .arrayLiteral elems

/-- `super.method(args)`, behind `super`. -/
def parseSuperCall : Parse Expr := do
  expect .dot
  let method ← parseIdent
  expect .lParen
  return .superCall method (← parseArgs r)

/-- `parse_if_expr`. -/
def parseIfExpr : Parse Expr := do
  expectKeyword .If
  let cond ← r.expr
  let thenBranch ← r.expr
  if ← consumeKeyword .Else then
    return .ifExpr cond thenBranch (some (← r.expr))
  else
    return .ifExpr cond thenBranch none

/-- `parse_while_expr`. -/
def parseWhileExpr : Parse Expr := do
  expectKeyword .While
  let cond ← r.expr
  let body ← r.expr
  return .whileExpr cond body

/-- `parse_loop_expr`. -/
def parseLoopExpr : Parse Expr := do
  expectKeyword .Loop
  return .loopExpr (← r.expr)

/-- Whether an expression is a block. -/
def isBlock : Expr → Bool
  | .block _ => true
  | _ => false

/-- The separator behind an arm of a match. -/
def parseCaseEnd (body : Expr) : Parse Unit := do
  if !isBlock body && !(← check .rBrace) then
    if !(← consume .comma) && !(← consume .semicolon) then
      error "expected ',' or ';'"
  else
    let _ ← consume .comma
    let _ ← consume .semicolon

/-- An arm of a match. -/
def parseMatchCase : Parse MatchCase := do
  let pattern ← r.pattern
  let guard ← (do
    if ← consumeKeyword .If then
      return some (← r.expr)
    else
      return none)
  expect .fatArrow
  let body ← r.expr
  parseCaseEnd body
  return .mk pattern guard body

/-- `parse_match_expr`. -/
def parseMatchExpr : Parse Expr := do
  expectKeyword .Match
  let scrutinee ← r.expr
  expect .lBrace
  let cases_ ← loop (fun cases_ => do
    if ← check .rBrace then
      return .inr cases_
    else
      return .inl (cases_ ++ [← parseMatchCase r])) []
  expect .rBrace
  return .matchExpr scrutinee cases_

/-- `parse_new_expr`. -/
def parseNewExpr : Parse Expr := do
  expectKeyword .New
  let className ← parseIdent
  let typeArgs ← (do
    if ← consume .less then
      let args ← commaList1 r.type
      expect .greater
      return args
    else
      return [])
  expect .lParen
  return .new className typeArgs (← parseArgs r)

/-- `parse_spawn_expr`. -/
def parseSpawnExpr : Parse Expr := do
  expectKeyword .Spawn
  return .spawn (← r.expr)

/-- `parse_await_expr`. -/
def parseAwaitExpr : Parse Expr := do
  expectKeyword .Await
  return .await (← r.expr)

/-- `parse_send_expr`. -/
def parseSendExpr : Parse Expr := do
  expectKeyword .Send
  let target ← r.expr
  expect .thinArrow
  return .send target (← r.expr)

/-- `parse_recv_expr`. -/
def parseRecvExpr : Parse Expr := do
  expectKeyword .Recv
  return .recv (← r.expr)

/-- A `return` expression, behind `return`. -/
def parseReturnExpr : Parse Expr := do
  if (← check .semicolon) || (← check .rBrace) || (← check .rParen) then
    return .returnExpr none
  else
    return .returnExpr (some (← r.expr))

/-- `parse_cast_expr`. -/
def parseCastExpr : Parse Expr := do
  expectKeyword .Cast
  let operand ← r.unaryExpr
  expectKeyword .As
  return .cast operand (← r.type)

/-- `parse_is_expr`. -/
def parseIsExpr : Parse Expr := do
  expectKeyword .Is
  let operand ← r.expr
  expect .thinArrow
  return .is operand (← r.type)

/-- `parse_lambda`. -/
def parseLambda : Parse Expr := do
  expect .backslash
  let params ← commaList (parseLambdaParam r) .thinArrow
  expect .thinArrow
  return .lambda params none (← r.expr)

/-- `parse_typed_lambda`. -/
def parseTypedLambda : Parse Expr := do
  expect .lParen
  let params ← commaListTrailing (parseLambdaParam r) .rParen
  expect .rParen
  expect .fatArrow
  return .lambda params none (← r.assignExpr)

/-- `parse_fn_lambda` and `parse_fnc_lambda`. -/
def parseFnLambda (keyword : Keyword) : Parse Expr := do
  expectKeyword keyword
  expect .lParen
  let params ← commaListTrailing (parseLambdaParam r) .rParen
  expect .rParen
  let retType ← (do
    if ← consume .thinArrow then
      return some (← r.type)
    else
      return none)
  return .lambda params retType (← r.expr)

/-- `parse_tuple_or_grouped`. -/
def parseTupleOrGrouped : Parse Expr := do
  expect .lParen
  if ← check .rParen then
    bump
    return .block []
  else
    let first ← r.expr
    if ← check .comma then
      bump
      let second ← r.expr
      let elems ← commaTail r.expr none [first, second]
      expect .rParen
      return .tuple elems
    else
      expect .rParen
      return first

/-- A C-style cast. -/
def parseCCast : Parse Expr := do
  bump
  let ty ← r.type
  expect .rParen
  return .cast (← r.unaryExpr) ty

/-- An expression that starts with `(`. -/
def parseParenExpr : Parse Expr := do
  if ← get fun s => isTypedLambda s.rest then
    parseTypedLambda r
  else if ← get fun s => isCCast s.rest then
    parseCCast r
  else
    parseTupleOrGrouped r

/-- A field `name: value` of a struct literal. -/
def parseStructField : Parse (Ident × Expr) := do
  let name ← parseIdent
  expect .colon
  let value ← r.expr
  if !(← check .rBrace) then
    expect .comma
  return (name, value)

/-- A struct literal, behind its name. -/
def parseStructLiteral (name : Ident) : Parse Expr := do
  bump
  let fields ← loop (fun fields => do
    if ← check .rBrace then
      return .inr fields
    else
      return .inl (fields ++ [← parseStructField r])) []
  expect .rBrace
  return .structLiteral name fields

/-- Skip type arguments in front of `{`; they are kept otherwise. -/
def skipTypeArgsBeforeBrace : List TokenKind → List TokenKind
  | .less :: rest =>
      let skipped := skipAngles 1 rest
      if skipped.head? == some .lBrace then skipped else .less :: rest
  | tokens => tokens

/-- An expression that starts with an identifier, behind it. -/
def parseIdentExpr (name : Ident) : Parse Expr := do
  modify fun s => { s with rest := skipTypeArgsBeforeBrace s.rest }
  if ← get fun s => isStructLiteral s.rest then
    parseStructLiteral r name
  else
    return .ident name

/-- Keywords that are identifiers in expressions. -/
def keywordExprIdent : Keyword → Option String
  | .Default => some "default"
  | .Send => some "send"
  | .Recv => some "recv"
  | .Is => some "is"
  | _ => none

/-- An expression that starts with a keyword. -/
def parseKeywordExpr (keyword : Keyword) : Parse Expr := do
  match keyword with
  | .True => do
      bump
      return .literal (.bool true)
  | .False => do
      bump
      return .literal (.bool false)
  | .Null => do
      bump
      return .literal .null
  | .This => do
      bump
      return .this
  | .Super => do
      bump
      parseSuperCall r
  | .If => parseIfExpr r
  | .While => parseWhileExpr r
  | .Loop => parseLoopExpr r
  | .Match => parseMatchExpr r
  | .New => parseNewExpr r
  | .Spawn => parseSpawnExpr r
  | .Await => parseAwaitExpr r
  | .Send => parseSendExpr r
  | .Recv => parseRecvExpr r
  | .Return => do
      bump
      parseReturnExpr r
  | .Break => do
      bump
      return .breakExpr
  | .Continue => do
      bump
      return .continueExpr
  | .Cast => parseCastExpr r
  | .Is => parseIsExpr r
  | .Channel => do
      bump
      return .channel
  | _ => do
      if (keyword == .Fnc || keyword == .Fn) && (← peekAhead 1) == some .lParen then
        parseFnLambda r keyword
      else
        match keywordExprIdent keyword with
        | some name => do
            bump
            return .ident name
        | none => fail (.unexpectedToken (.keyword keyword))

/-- `parse_primary_expr`. -/
def parsePrimaryExpr : Parse Expr := do
  match ← peek with
  | .at => do
      bump
      parseMapLiteral r
  | .lBracket => do
      bump
      parseArrayLiteral r
  | .integer value => do
      bump
      return .literal (.integer value)
  | .float bits => do
      bump
      return .literal (.float bits)
  | .string value => do
      bump
      return .literal (.string value)
  | .rawString value => do
      bump
      return .literal (.string value)
  | .interpString parts => do
      bump
      parseInterpParts r parts none
  | .byte value => do
      bump
      return .literal (.byte value)
  | .char value => do
      bump
      return .literal (.char value)
  | .bool value => do
      bump
      return .literal (.bool value)
  | .keyword keyword => parseKeywordExpr r keyword
  | .backslash => parseLambda r
  | .lParen => parseParenExpr r
  | .lBrace => do
      return .block (← parseBlockBody r)
  | .ident name => do
      bump
      parseIdentExpr r name
  | token => fail (.unexpectedToken token)

/-- The part of a postfix expression behind `.`. -/
def parseDotPostfix (expr : Expr) : Parse Expr := do
  match ← peek with
  | .integer index => do
      bump
      return .tupleIndex expr (index % 2 ^ 64).toNat
  | _ => do
      let name ← parseMethodName
      let named ← get fun s => hasNamedArgs s.rest
      let paren ← check .lParen
      match expr, isTypeAccess expr && (named || !paren) with
      | .ident enumName, true => do
          if paren then
            bump
            return .enumValue enumName name [] (← parseNamedArgs r)
          else
            return .enumValue enumName name [] []
      | _, _ => do
          if ← get fun s => isGenericMethodCall s.rest then
            bump
            modify fun s => { s with rest := skipAngles 1 s.rest }
            expect .lParen
            return .methodCall expr name (← parseArgs r)
          else if paren then
            bump
            return .methodCall expr name (← parseArgs r)
          else
            return .fieldAccess expr name

/-- The part of a postfix expression at `::`. -/
def parseColonPostfix (expr : Expr) (pendingTypeArgs : Option (List Ty)) : Parse Expr := do
  match expr with
  | .ident enumName => do
      bump
      let variant ← parseMethodName
      let pending := pendingTypeArgs.getD []
      let typeArgs ← (do
        if pending.isEmpty && (← get fun s => isGenericMethodCall s.rest) then
          bump
          parseTypeArgs r
        else
          return pending)
      if ← check .lParen then
        bump
        return .enumValue enumName variant typeArgs (← parseArgs r)
      else
        return .enumValue enumName variant typeArgs []
  | _ => error "expected enum name before ::"

/-- One postfix operator.  Type arguments in front of `::` are kept for the
next round. -/
def parsePostfixOp (expr : Expr) (pending : Option (List Ty)) :
    Parse (Expr × Option (List Ty) ⊕ Expr) := do
  if ← check .dot then
    bump
    return .inl (← parseDotPostfix r expr, pending)
  else if ← check .colonColon then
    return .inl (← parseColonPostfix r expr pending, none)
  else if ← get fun s => isGenericTypeStaticCall s.rest then
    bump
    return .inl (expr, some (← parseTypeArgs r))
  else if ← check .lBracket then
    bump
    let index ← r.expr
    expect .rBracket
    return .inl (.index expr index, pending)
  else if (← check .dotDot) || (← check .dotDotDot) then
    let inclusive ← check .dotDotDot
    bump
    return .inl (.range expr (← r.postfixExpr) inclusive, pending)
  else if ← check .lParen then
    bump
    return .inl (.call expr (← parseArgs r), pending)
  else
    return .inr expr

/-- The loop of `parse_postfix_expr`, for at most `chain` rounds. -/
def parsePostfixChain : Nat → Expr → Option (List Ty) → Parse Expr
  | 0, _, _ => error "postfix chain too deep"
  | chain + 1, expr, pending => do
      match ← parsePostfixOp r expr pending with
      | .inl (expr, pending) => parsePostfixChain chain expr pending
      | .inr expr => return expr

/-- `parse_postfix_expr`. -/
def parsePostfixExpr : Parse Expr := do
  let expr ← parsePrimaryExpr r
  parsePostfixChain r maxRecursionDepth expr none

/-- The operator of a prefix token. -/
def prefixOp : TokenKind → Option UnaryOp
  | .minus => some .neg
  | .bang => some .not
  | .tilde => some .bitNot
  | _ => none

/-- `parse_unary_expr`. -/
def parseUnaryExpr : Parse Expr := do
  if ← check .plus then
    bump
    r.unaryExpr
  else
    match prefixOp (← peek) with
    | some op => do
        bump
        return .unary op (← r.unaryExpr)
    | none => parsePostfixExpr r

/-- One `as` with its type. -/
def parseAs (expr : Expr) : Parse (Expr ⊕ Expr) := do
  if ← checkKeyword .As then
    bump
    return .inl (.cast expr (← r.type))
  else
    return .inr expr

/-- `parse_as_expr`. -/
def parseAsExpr : Parse Expr := do
  let operand ← parseUnaryExpr r
  loop (parseAs r) operand

/-- One binary operator with its right operand. -/
def parseOperator (operand : Parse Expr) (op? : TokenKind → Option BinaryOp) (lhs : Expr) :
    Parse (Expr ⊕ Expr) := do
  match op? (← peek) with
  | some op => do
      bump
      let rhs ← operand
      return .inl (.binary op lhs rhs)
  | none => return .inr lhs

/-- A level of left-associative binary operators. -/
def parseBinary (operand : Parse Expr) (op? : TokenKind → Option BinaryOp) : Parse Expr := do
  let lhs ← operand
  loop (parseOperator operand op?) lhs

/-- Operators of `parse_multiplicative_expr`. -/
def multiplicativeOp : TokenKind → Option BinaryOp
  | .star => some .mul
  | .slash => some .div
  | .percent => some .mod
  | _ => none

/-- Operators of `parse_additive_expr`. -/
def additiveOp : TokenKind → Option BinaryOp
  | .plus => some .add
  | .minus => some .sub
  | _ => none

/-- Operators of `parse_shift_expr`. -/
def shiftOp : TokenKind → Option BinaryOp
  | .lessLess => some .shl
  | .greaterGreater => some .shr
  | .greaterGreaterGreater => some .shrArith
  | _ => none

/-- Operators of `parse_relational_expr`. -/
def relationalOp : TokenKind → Option BinaryOp
  | .less => some .lt
  | .lessEquals => some .le
  | .greater => some .gt
  | .greaterEquals => some .ge
  | _ => none

/-- Operators of `parse_equality_expr`. -/
def equalityOp : TokenKind → Option BinaryOp
  | .equalsEquals => some .eq
  | .bangEquals => some .ne
  | _ => none

/-- The operator of `parse_bitwise_and_expr`. -/
def bitwiseAndOp : TokenKind → Option BinaryOp
  | .ampersand => some .bitAnd
  | _ => none

/-- The operator of `parse_bitwise_xor_expr`. -/
def bitwiseXorOp : TokenKind → Option BinaryOp
  | .caret => some .xor
  | _ => none

/-- The operator of `parse_bitwise_or_expr`. -/
def bitwiseOrOp : TokenKind → Option BinaryOp
  | .bar => some .bitOr
  | _ => none

/-- The operator of `parse_and_expr`. -/
def andOp : TokenKind → Option BinaryOp
  | .ampAmp => some .and
  | _ => none

/-- The operator of `parse_or_expr`. -/
def orOp : TokenKind → Option BinaryOp
  | .barBar => some .or
  | _ => none

/-- The operators of a precedence level; level 0 binds tightest. -/
def levelOp : Nat → TokenKind → Option BinaryOp
  | 0 => multiplicativeOp
  | 1 => additiveOp
  | 2 => shiftOp
  | 3 => relationalOp
  | 4 => equalityOp
  | 5 => bitwiseAndOp
  | 6 => bitwiseXorOp
  | 7 => bitwiseOrOp
  | 8 => andOp
  | 9 => orOp
  | _ => fun _ => none

/-- The function of a precedence level: `parse_multiplicative_expr` is level 1,
`parse_or_expr` is level 10. -/
def parseLevel : Nat → Parse Expr
  | 0 => parseAsExpr r
  | level + 1 => parseBinary (parseLevel level) (levelOp level)

/-- `parse_or_expr`. -/
def parseOrExpr : Parse Expr :=
  parseLevel r 10

/-- `parse_ternary_expr`. -/
def parseTernaryExpr : Parse Expr := do
  let cond ← parseOrExpr r
  if ← check .question then
    bump
    let thenBranch ← parseOrExpr r
    expect .colon
    return .ifExpr cond thenBranch (some (← r.ternaryExpr))
  else
    return cond

/-- Operators of compound assignments that the parser accepts. -/
def compoundOp : TokenKind → Option CompoundOp
  | .plusEquals => some .add
  | .minusEquals => some .sub
  | .starEquals => some .mul
  | .slashEquals => some .div
  | .percentEquals => some .mod
  | _ => none

/-- A parameter of a lambda without types. -/
def lambdaParam : Expr → Except ParseError Param
  | .ident name => .ok { name, paramType := .infer, annotations := [] }
  | _ => .error (.message "expected identifier in lambda parameter list")

/-- `expr_to_lambda_params`. -/
def exprToLambdaParams : Expr → Except ParseError (List Param)
  | .ident name => .ok [{ name, paramType := .infer, annotations := [] }]
  | .tuple elems => elems.mapM lambdaParam
  | _ => .error (.message "expected identifier or parameter list before '=>'")

/-- Whether an expression can be the parameters of a lambda. -/
def isLambdaParam : Expr → Bool
  | .ident _ | .tuple _ => true
  | _ => false

/-- The part of `parse_assign_expr` behind the left-hand side. -/
def parseAssignTail (lhs : Expr) : Parse Expr := do
  if isLambdaParam lhs && (← check .fatArrow) then
    bump
    match exprToLambdaParams lhs with
    | .error e => fail e
    | .ok params => return .lambda params none (← r.assignExpr)
  else if ← check .equals then
    bump
    return .assign lhs (← r.assignExpr)
  else
    match compoundOp (← peek) with
    | some op => do
        bump
        return .compoundAssign op lhs (← r.assignExpr)
    | none => return lhs

/-- `parse_assign_expr`. -/
def parseAssignExpr : Parse Expr := do
  let lhs ← parseTernaryExpr r
  parseAssignTail r lhs

/-- Run a parser one level deeper, unless that is too deep. -/
def nested {α : Type} (message : String) (p : Parse α) : Parse α := do
  if (← get State.depth) + 1 > maxRecursionDepth then
    error message
  else
    modify fun s => { s with depth := s.depth + 1 }
    let outcome ← result p
    modify fun s => { s with depth := s.depth - 1 }
    match outcome with
    | .ok a => return a
    | .error e => fail e

/-- `parse_expr`. -/
def parseExpr : Parse Expr :=
  nested "expression nesting too deep" (parseAssignExpr r)

end Grammar

end Tinox.Parser
