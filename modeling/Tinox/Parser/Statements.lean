import Tinox.Parser.Expressions

/-!
# Statements

A statement that starts with an identifier is read by a parser of its own and
not by `parse_expr`.
-/

namespace Tinox.Parser

open Tinox.Syntax Parse

variable (r : Rec)

/-- The value of an assignment, its operator being the current token, and the
semicolon. -/
def parseAssigned : Parse Expr := do
  bump
  let value ← r.expr
  expect .semicolon
  return value

/-- Arguments of a call, the parenthesis being the current token. -/
def parseCallArgs : Parse (List Expr) := do
  bump
  parseArgs r

/-- One index `[e]`. -/
def parseIndex (target : Expr) : Parse (Expr ⊕ Expr) := do
  if ← check .lBracket then
    bump
    let index ← r.expr
    expect .rBracket
    return .inl (.index target index)
  else
    return .inr target

/-- The indices `[e][e]..` behind an expression. -/
def parseIndices (target : Expr) : Parse Expr :=
  loop (parseIndex r) target

/-- One `.field` or `.method(args)`.  A field in front of `=` makes the statement
an assignment. -/
def parseMember (expr : Expr) : Parse (Expr ⊕ Expr ⊕ Stmt) := do
  if ← consume .dot then
    let field ← parseIdent
    if ← check .lParen then
      return .inl (.methodCall expr field (← parseCallArgs r))
    else if ← check .equals then
      return .inr (.inr (.assignment (.fieldAccess expr field) (← parseAssigned r)))
    else
      return .inl (.fieldAccess expr field)
  else
    return .inr (.inl expr)

/-- The members behind an expression, or the assignment to the last one. -/
def parseMembers (expr : Expr) : Parse (Expr ⊕ Stmt) :=
  loop (parseMember r) expr

/-- One `.field` or `.method(args)`. -/
def parsePlainMember (expr : Expr) : Parse (Expr ⊕ Expr) := do
  if ← consume .dot then
    let field ← parseIdent
    if ← check .lParen then
      return .inl (.methodCall expr field (← parseCallArgs r))
    else
      return .inl (.fieldAccess expr field)
  else
    return .inr expr

/-- The members behind an expression. -/
def parsePlainMembers (expr : Expr) : Parse Expr :=
  loop (parsePlainMember r) expr

/-- The statement is the expression that has been read. -/
def endExprStmt (expr : Expr) : Parse Stmt := do
  expect .semicolon
  return .expr expr

/-- The members behind `name[index]..`. -/
def parseIndexedMembers (target : Expr) : Parse Stmt := do
  match ← parseMembers r target with
  | .inl expr => endExprStmt expr
  | .inr stmt => return stmt

/-- `name[index]..` has been read. -/
def parseIndexedStmt (target : Expr) : Parse Stmt := do
  if ← check .equals then
    return .assignment target (← parseAssigned r)
  else
    match compoundOp (← peek) with
    | some op => return .expr (.compoundAssign op target (← parseAssigned r))
    | none => do
        if ← check .lParen then
          endExprStmt (.call target (← parseCallArgs r))
        else
          parseIndexedMembers r target

/-- `name.member..[index]..` and the members behind it have been read. -/
def parseMemberIndexedEnd (expr : Expr) : Parse Stmt := do
  if ← check .equals then
    return .assignment expr (← parseAssigned r)
  else
    match compoundOp (← peek) with
    | some op => return .expr (.compoundAssign op expr (← parseAssigned r))
    | none => endExprStmt expr

/-- `name.member..[index]..` has been read. -/
def parseMemberIndexedStmt (target : Expr) : Parse Stmt := do
  if ← check .equals then
    return .assignment target (← parseAssigned r)
  else
    parseMemberIndexedEnd r (← parsePlainMembers r target)

/-- A statement that starts with `name.`. -/
def parseMemberStmt (expr : Expr) : Parse Stmt := do
  match ← parseMembers r expr with
  | .inr stmt => return stmt
  | .inl expr => do
      if ← check .lBracket then
        parseMemberIndexedStmt r (← parseIndices r expr)
      else
        endExprStmt expr

/-- The type to which `expr::method` belongs. -/
def staticOwner (expr : Expr) (method : Ident) : Ident :=
  match expr with
  | .ident name => name
  | _ => method

/-- The arguments behind `::method`. -/
def parseStaticArgs : Parse (List Expr) := do
  if ← consume .lParen then
    parseArgs r
  else
    return []

/-- One `::method` or `::method(args)` with the members behind it. -/
def parseStaticMember (expr : Expr) : Parse (Expr ⊕ Expr) := do
  if ← consume .colonColon then
    let method ← parseIdent
    let args ← parseStaticArgs r
    return .inl (← parsePlainMembers r (.enumValue (staticOwner expr method) method [] args))
  else
    return .inr expr

/-- A statement that starts with `name::`. -/
def parseStaticStmt (expr : Expr) : Parse Stmt := do
  let expr ← loop (parseStaticMember r) expr
  endExprStmt expr

/-- A statement that starts with an identifier, behind it. -/
def parseIdentStmt (name : Ident) : Parse Stmt := do
  if ← check .equals then
    return .assignment (.ident name) (← parseAssigned r)
  else
    match compoundOp (← peek) with
    | some op => return .expr (.compoundAssign op (.ident name) (← parseAssigned r))
    | none => do
        if ← check .lBracket then
          parseIndexedStmt r (← parseIndices r (.ident name))
        else if ← check .lParen then
          endExprStmt (.call (.ident name) (← parseCallArgs r))
        else if ← check .dot then
          parseMemberStmt r (.ident name)
        else if ← check .colonColon then
          parseStaticStmt r (.ident name)
        else
          endExprStmt (.ident name)

/-- The optional type of a declaration. -/
def parseDeclType : Parse (Option Ty) := do
  if ← consume .colon then
    return some (← r.type)
  else
    return none

/-- The optional value of a declaration. -/
def parseDeclValue : Parse (Option Expr) := do
  if ← consume .equals then
    return some (← r.expr)
  else
    return none

/-- `parse_let_stmt`. -/
def parseLetStmt : Parse Stmt := do
  expectKeyword .Let
  let name ← parseIdent
  let ty ← parseDeclType r
  let value ← parseDeclValue r
  expect .semicolon
  return .letStmt name ty value

/-- `parse_var_stmt`. -/
def parseVarStmt : Parse Stmt := do
  expectKeyword .Var
  let name ← parseIdent
  let ty ← parseDeclType r
  let value ← parseDeclValue r
  expect .semicolon
  return .varStmt name ty value

/-- The branch behind `else`. -/
def parseElse : Parse Stmt := do
  if ← checkKeyword .If then
    r.ifStmt
  else
    parseBlock r

/-- `parse_if_stmt`. -/
def parseIfStmt : Parse Stmt := do
  expectKeyword .If
  let cond ← r.expr
  let thenBranch ← parseBlock r
  if ← consumeKeyword .Else then
    return .ifStmt cond thenBranch (some (← parseElse r))
  else
    return .ifStmt cond thenBranch none

/-- `parse_while_stmt`. -/
def parseWhileStmt : Parse Stmt := do
  expectKeyword .While
  let cond ← r.expr
  let body ← parseBlock r
  return .whileStmt cond body

/-- A loop over the elements of a value, behind `for`. -/
def parseForInStmt : Parse Stmt := do
  let var ← parseIdent
  expectKeyword .In
  let iter ← r.expr
  let body ← parseBlock r
  return .forStmt var iter body

/-- The first part of a C-style `for`, with its semicolon. -/
def parseForInit : Parse (Option Stmt) := do
  if ← check .semicolon then
    bump
    return none
  else if ← checkKeyword .Let then
    return some (← parseLetStmt r)
  else if ← checkKeyword .Var then
    return some (← parseVarStmt r)
  else
    let expr ← r.expr
    expect .semicolon
    return some (.expr expr)

/-- The condition of a C-style `for`; in place of an empty one a semicolon is
skipped. -/
def parseForCond : Parse (Option Expr) := do
  if ← check .semicolon then
    bump
    return none
  else
    return some (← r.expr)

/-- The update of a C-style `for`. -/
def parseForUpdate : Parse (Option Expr) := do
  if ← check .rParen then
    return none
  else
    return some (← r.expr)

/-- A C-style loop, behind `for`. -/
def parseForCStmt : Parse Stmt := do
  expect .lParen
  let init ← parseForInit r
  let cond ← parseForCond r
  expect .semicolon
  let update ← parseForUpdate r
  expect .rParen
  let body ← parseBlock r
  return .forC init cond update body

/-- `parse_for_stmt`. -/
def parseForStmt : Parse Stmt := do
  bump
  if ← check .lParen then
    parseForCStmt r
  else
    parseForInStmt r

/-- `parse_loop_stmt`. -/
def parseLoopStmt : Parse Stmt := do
  expectKeyword .Loop
  return .loop (← parseBlock r)

/-- `parse_return_stmt`. -/
def parseReturnStmt : Parse Stmt := do
  expectKeyword .Return
  if ← check .semicolon then
    bump
    return .returnStmt none
  else
    let value ← r.expr
    expect .semicolon
    return .returnStmt (some value)

/-- `parse_throw_stmt`. -/
def parseThrowStmt : Parse Stmt := do
  expectKeyword .Throw
  let value ← r.expr
  expect .semicolon
  return .throwStmt value

/-- A catch clause, behind `catch`. -/
def parseCatch : Parse CatchClause := do
  let hasParen ← consume .lParen
  let param ← parseIdent
  expect .colon
  let ty ← r.type
  if hasParen then
    expect .rParen
  return .mk param ty (← parseBlock r)

/-- `parse_try_stmt`. -/
def parseTryStmt : Parse Stmt := do
  expectKeyword .Try
  let body ← parseBlock r
  let catches ← loop (fun catches => do
    if ← consumeKeyword .Catch then
      return .inl (catches ++ [← parseCatch r])
    else
      return .inr catches) []
  if ← consumeKeyword .Finally then
    return .tryStmt body catches (some (← parseBlock r))
  else
    return .tryStmt body catches none

/-- `parse_defer_stmt`. -/
def parseDeferStmt : Parse Stmt := do
  expectKeyword .Defer
  return .deferStmt (← r.stmt)

/-- An arm `recv channel -> name { .. }` of a select, behind `recv`. -/
def parseSelectArm : Parse SelectArm := do
  let target ← r.expr
  expect .thinArrow
  let var ← parseIdent
  return .mk target var (← parseBlock r)

/-- One arm of a select: the last default and the arms read so far. -/
def parseSelectArms (arms : List SelectArm × Option Stmt) :
    Parse (List SelectArm × Option Stmt ⊕ List SelectArm × Option Stmt) := do
  if (← check .rBrace) || (← isAtEnd) then
    return .inr arms
  else if ← consumeKeyword .Default then
    return .inl (arms.1, some (← parseBlock r))
  else if ← consumeKeyword .Recv then
    return .inl (arms.1 ++ [← parseSelectArm r], arms.2)
  else
    fail (.expectedSelectArm (← peek))

/-- `parse_select_stmt`. -/
def parseSelectStmt : Parse Stmt := do
  expectKeyword .Select
  expect .lBrace
  let arms ← loop (parseSelectArms r) ([], none)
  expect .rBrace
  return .select arms.1 arms.2

/-- Expressions that need no semicolon. -/
def isBlockLike : Expr → Bool
  | .matchExpr .. | .block _ | .ifExpr .. => true
  | _ => false

/-- A statement that is an expression and does not start with an identifier. -/
def parseExprStmt : Parse Stmt := do
  let expr ← r.expr
  if !isBlockLike expr && !(← check .rBrace) then
    expect .semicolon
    return .expr expr
  else
    let _ ← consume .semicolon
    return .expr expr

/-- A statement that starts with a keyword. -/
def parseKeywordStmt : Keyword → Parse Stmt
  | .Let => parseLetStmt r
  | .Var => parseVarStmt r
  | .If => parseIfStmt r
  | .While => parseWhileStmt r
  | .For => parseForStmt r
  | .Loop => parseLoopStmt r
  | .Return => parseReturnStmt r
  | .Break => do
      bump
      expect .semicolon
      return .breakStmt
  | .Continue => do
      bump
      expect .semicolon
      return .continueStmt
  | .Throw => parseThrowStmt r
  | .Try => parseTryStmt r
  | .Defer => parseDeferStmt r
  | .Select => parseSelectStmt r
  | _ => parseExprStmt r

/-- `parse_stmt_inner`. -/
def parseStmtInner : Parse Stmt := do
  match ← peek with
  | .keyword keyword => parseKeywordStmt r keyword
  | .lBrace => do
      bump
      let stmts ← parseBlockStmts r
      expect .rBrace
      return .block stmts
  | .semicolon => do
      bump
      return .empty
  | .ident name => do
      bump
      parseIdentStmt r name
  | _ => parseExprStmt r

/-- `parse_stmt`. -/
def parseStmt : Parse Stmt :=
  nested "statement nesting too deep" (parseStmtInner r)

end Tinox.Parser
