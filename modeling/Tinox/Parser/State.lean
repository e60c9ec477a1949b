import Tinox.Syntax.Ast

/-!
# Parser states and primitive operations

The parser is a recursive-descent parser over a token list.  Its position is
modelled by the tokens that are left, since it never moves back except to a
position it has saved.  Spans are dropped.

A parser yields no result when the recursion of the modelled functions runs
out of fuel; an error of the parser itself is a result.
-/

namespace Tinox.Parser

open Tinox.Syntax

/-- Maximum expression and statement nesting that the parser accepts. -/
def maxRecursionDepth : Nat := 1000

/-- Error messages.  Those built from tokens keep the tokens. -/
inductive ParseError where
  | message (text : String)
  /-- "expected {kind}, found {found}" -/
  | expected (kind found : TokenKind)
  /-- "expected keyword {keyword}, found {found}" -/
  | expectedKeyword (keyword : Keyword) (found : TokenKind)
  /-- "unexpected token: {found}" -/
  | unexpectedToken (found : TokenKind)
  /-- "expected 'recv' or 'default' in select, got {found}" -/
  | expectedSelectArm (found : TokenKind)
  /-- "invalid expression in string interpolation: {source}" -/
  | interpolation (source : String)
  deriving DecidableEq, Repr

/-- The state of a `Parser`. -/
structure State where
  rest : List TokenKind
  errors : List ParseError
  depth : Nat
  deriving DecidableEq, Repr

/-- Parsing functions: `fn(&mut self) -> Result<α, Error>`. -/
def Parse (α : Type) : Type :=
  State → Option (Except ParseError α × State)

namespace Parse

variable {α β : Type}

instance : Monad Parse where
  pure a := fun s => some (.ok a, s)
  bind p f := fun s =>
    match p s with
    | none => none
    | some (.error e, s') => some (.error e, s')
    | some (.ok a, s') => f a s'

/-- Stop with an error. -/
def fail (e : ParseError) : Parse α :=
  fun s => some (.error e, s)

/-- `Err(self.error(text))`. -/
def error (text : String) : Parse α :=
  fail (.message text)

/-- The recursion has run out of fuel. -/
def outOfFuel : Parse α :=
  fun _ => none

/-- Run a parser and hand its `Result` to the caller. -/
def result (p : Parse α) : Parse (Except ParseError α) :=
  fun s =>
    match p s with
    | none => none
    | some (r, s') => some (.ok r, s')

/-- Read something off the state. -/
def get (f : State → α) : Parse α :=
  fun s => some (.ok (f s), s)

/-- Change the state. -/
def modify (f : State → State) : Parse Unit :=
  fun s => some (.ok (), f s)

/-- At most `count` rounds of a loop: a round goes on with `inl` or leaves the
loop with `inr`. -/
def iterate (step : α → Parse (α ⊕ β)) : Nat → α → Parse β
  | 0, _ => outOfFuel
  | count + 1, a => do
      match ← step a with
      | .inl a => iterate step count a
      | .inr b => pure b

/-- A loop every round of which consumes a token. -/
def loop (step : α → Parse (α ⊕ β)) (a : α) : Parse β :=
  fun s => iterate step (s.rest.length + 1) a s

end Parse

open Parse

/-- The current token. -/
def State.peek (s : State) : TokenKind :=
  s.rest.headD .eof

/-- `peek`. -/
def peek : Parse TokenKind :=
  get State.peek

/-- `peek_ahead`. -/
def peekAhead (offset : Nat) : Parse (Option TokenKind) :=
  get fun s => s.rest[offset]?

/-- `bump`. -/
def bump : Parse Unit :=
  modify fun s => { s with rest := s.rest.tail }

/-- `check`. -/
def check (kind : TokenKind) : Parse Bool :=
  get fun s => s.peek == kind

/-- `check_keyword`. -/
def checkKeyword (keyword : Keyword) : Parse Bool :=
  check (.keyword keyword)

/-- `is_at_end`. -/
def isAtEnd : Parse Bool :=
  get fun s => s.rest.isEmpty || s.peek == .eof

/-- `consume`. -/
def consume (kind : TokenKind) : Parse Bool := do
  if ← check kind then
    bump
    return true
  else
    return false

/-- `consume_keyword`. -/
def consumeKeyword (keyword : Keyword) : Parse Bool :=
  consume (.keyword keyword)

/-- `expect`. -/
def expect (kind : TokenKind) : Parse Unit := do
  if ← check kind then
    bump
  else
    fail (.expected kind (← peek))

/-- `expect_keyword`. -/
def expectKeyword (keyword : Keyword) : Parse Unit := do
  if ← checkKeyword keyword then
    bump
  else
    fail (.expectedKeyword keyword (← peek))

/-- Replace the current token. -/
def replaceToken (kind : TokenKind) : Parse Unit :=
  modify fun s => { s with rest := kind :: s.rest.tail }

/-- `expect_generic_close`: of `>>` and `>>>` one `>` is consumed. -/
def expectGenericClose : Parse Unit := do
  if ← check .greater then
    bump
  else if ← check .greaterGreater then
    replaceToken .greater
  else if ← check .greaterGreaterGreater then
    replaceToken .greaterGreater
  else
    error "expected '>'"

/-- `self.errors.push(e)`. -/
def pushError (e : ParseError) : Parse Unit :=
  modify fun s => { s with errors := s.errors ++ [e] }

/-- Record an error of a part and go on. -/
def recover {α β : Type} (p : Parse α) (next : α → Parse β) (resume : Parse β) : Parse β := do
  match ← result p with
  | .ok a => next a
  | .error e => do
      pushError e
      resume

/-- Keywords at which `synchronize` stops. -/
def isSyncKeyword : Keyword → Bool
  | .Fn | .Fnc | .Class | .Interface | .Enum | .Trait | .Namespace | .If | .While | .For | .Loop
  | .Return => true
  | _ => false

/-- The tokens that `synchronize` leaves; `first` holds before it has moved. -/
def skipToSync : Bool → List TokenKind → List TokenKind
  | _, [] => []
  | _, .eof :: rest => .eof :: rest
  | _, .semicolon :: rest => rest
  | first, .keyword keyword :: rest =>
      if isSyncKeyword keyword && !first then .keyword keyword :: rest else skipToSync false rest
  | _, _ :: rest => skipToSync false rest

/-- `synchronize`. -/
def synchronize : Parse Unit :=
  modify fun s => { s with rest := skipToSync true s.rest }

/-- `take_doc`. -/
def takeDoc : Parse (Option String) := do
  modify fun s => { s with rest := s.rest.dropWhile TokenKind.isTrivia }
  match ← peek with
  | .docComment text => do
      bump
      return some text
  | _ => return none

/-- Keywords that `parse_ident` and expressions take for identifiers. -/
def keywordIdent : Keyword → Option String
  | .Default => some "default"
  | .New => some "new"
  | .Send => some "send"
  | .Recv => some "recv"
  | .Is => some "is"
  | _ => none

/-- `parse_ident`. -/
def parseIdent : Parse Ident := do
  match ← peek with
  | .ident name => do
      bump
      return name
  | .underscore => do
      bump
      return "_"
  | .keyword keyword =>
      match keywordIdent keyword with
      | some name => do
          bump
          return name
      | none => error "expected identifier"
  | _ => error "expected identifier"

/-- Keywords that `parse_method_name` takes for names. -/
def keywordMethodName : Keyword → Option String
  | .New => some "new"
  | .Send => some "send"
  | .Recv => some "recv"
  | .Default => some "default"
  | .Return => some "return"
  | .Is => some "is"
  | .As => some "as"
  | _ => none

/-- `parse_method_name`. -/
def parseMethodName : Parse Ident := do
  match ← peek with
  | .ident name => do
      bump
      return name
  | .keyword keyword =>
      match keywordMethodName keyword with
      | some name => do
          bump
          return name
      | none => error "expected method name"
  | _ => error "expected method name"

section Lists

variable {α : Type} (item : Parse α)

/-- A further item behind a comma.  With `close`, a comma in front of it ends
the list. -/
def commaItem (close : Option TokenKind) (items : List α) : Parse (List α ⊕ List α) := do
  if ← consume .comma then
    match close with
    | some kind =>
        if ← check kind then
          return .inr items
        else
          return .inl (items ++ [← item])
    | none => return .inl (items ++ [← item])
  else
    return .inr items

/-- `while self.consume(Comma) { items.push(item) }`. -/
def commaTail (close : Option TokenKind) (items : List α) : Parse (List α) :=
  loop (commaItem item close) items

/-- One or more items. -/
def commaList1 : Parse (List α) := do
  let first ← item
  commaTail item none [first]

/-- Items up to `close`, which is not consumed. -/
def commaList (close : TokenKind) : Parse (List α) := do
  if ← check close then
    return []
  else
    commaList1 item

/-- As `commaList`, with an optional trailing comma. -/
def commaListTrailing (close : TokenKind) : Parse (List α) := do
  if ← check close then
    return []
  else
    let first ← item
    commaTail item (some close) [first]

end Lists

/-- The functions through which the parser calls itself. -/
structure Rec where
  expr : Parse Expr
  assignExpr : Parse Expr
  ternaryExpr : Parse Expr
  unaryExpr : Parse Expr
  postfixExpr : Parse Expr
  stmt : Parse Stmt
  ifStmt : Parse Stmt
  type : Parse Ty
  pattern : Parse Pattern
  annotationArg : Parse AnnotationArg
  /-- `parse_expr` of a fresh parser on the source text of an interpolation. -/
  exprStr : String → Option (Except ParseError Expr)

end Tinox.Parser
