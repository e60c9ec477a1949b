import Tinox.Parser.Statements

/-!
# Declarations and source files

The declarations, and the knot that ties the functions of the parser together.
-/

namespace Tinox.Parser

open Tinox.Syntax Parse

section Grammar

variable (r : Rec)

/-- Parameters in parentheses. -/
def parseParams : Parse (List Param) := do
  expect .lParen
  let params ← commaList (parseParam r) .rParen
  expect .rParen
  return params

/-- The result type of a function. -/
def parseRetType : Parse Ty := do
  if ← consume .thinArrow then
    r.type
  else
    return .nothing

/-- `parse_immutable`. -/
def parseImmutable : Parse ImmutableDecl := do
  expectKeyword .Immutable
  let name ← parseIdent
  let fields ← parseParams r
  let _ ← consume .semicolon
  return { name, fields, doc := none, annotations := [] }

/-- `parse_extern_fn`. -/
def parseExternFn : Parse FunctionDecl := do
  expectKeyword .Extern
  expectKeyword .Fn
  let name ← parseIdent
  let params ← parseParams r
  let retType ← parseRetType r
  expect .semicolon
  return { name, typeParams := [], params, retType, body := .empty, isAsync := false,
           doc := none, annotations := [] }

/-- The body of a function; an abstract one has an empty block. -/
def parseFnBody : Parse Stmt := do
  if ← consume .semicolon then
    return .block []
  else
    parseBlock r

/-- `parse_fn`. -/
def parseFn : Parse FunctionDecl := do
  expectKeyword .Fn
  let name ← parseIdent
  let typeParams ← parseOptTypeParams
  let params ← parseParams r
  let retType ← parseRetType r
  let body ← parseFnBody r
  return { name, typeParams, params, retType, body, isAsync := false, doc := none,
           annotations := [] }

/-- `parse_visibility`. -/
def parseVisibility : Parse Visibility := do
  if ← consumeKeyword .Public then
    return .pub
  else if ← consumeKeyword .Private then
    return .priv
  else if ← consumeKeyword .Protected then
    return .prot
  else
    let _ ← consumeKeyword .Package
    return .package

/-- `parse_method`. -/
def parseMethod (visibility : Visibility) (static_ : Bool) : Parse Method := do
  expectKeyword (if static_ then .Fnc else .Fn)
  let name ← parseMethodName
  let typeParams ← parseOptTypeParams
  let params ← parseParams r
  let retType ← parseRetType r
  let body ← parseBlock r
  return { name, typeParams, params, retType, body, static_, visibility, isAsync := false,
           doc := none, annotations := [] }

/-- `parse_field`. -/
def parseField (visibility : Visibility) (mutable : Bool) : Parse FieldDef := do
  let name ← parseIdent
  expect .colon
  let fieldType ← r.type
  expect .semicolon
  return { name, fieldType, visibility, mutable, doc := none, annotations := [] }

/-- `self.consume_keyword(Var) || self.consume_keyword(Let) || self.consume_keyword(Mut)`. -/
def consumeFieldKeyword : Parse Bool := do
  if ← consumeKeyword .Var then
    return true
  else if ← consumeKeyword .Let then
    return true
  else
    consumeKeyword .Mut

/-- A field or method of a class. -/
def parseClassMember : Parse (FieldDef ⊕ Method) := do
  let annotations ← parseAnnotations r
  let doc ← takeDoc
  let visibility ← parseVisibility
  let mutable ← consumeFieldKeyword
  let isAsync ← consumeKeyword .Async
  if ← checkKeyword .Fn then
    return .inr { ← parseMethod r visibility false with isAsync, doc, annotations }
  else if ← checkKeyword .Fnc then
    return .inr { ← parseMethod r visibility true with isAsync, doc, annotations }
  else
    return .inl { ← parseField r visibility mutable with doc, annotations }

/-- The names behind `extends` or `implements`. -/
def parseIdents (keyword : Keyword) : Parse (List Ident) := do
  if ← consumeKeyword keyword then
    commaList1 parseIdent
  else
    return []

/-- The name behind `extends`. -/
def parseExtends : Parse (Option Ident) := do
  if ← consumeKeyword .Extends then
    return some (← parseIdent)
  else
    return none

/-- The members of a class up to its closing brace. -/
def parseClassMembers : Parse (List FieldDef × List Method) :=
  loop (fun members => do
    if ← check .rBrace then
      return .inr members
    else
      match ← parseClassMember r with
      | .inl field => return .inl (members.1 ++ [field], members.2)
      | .inr method => return .inl (members.1, members.2 ++ [method])) ([], [])

/-- `parse_class`. -/
def parseClass : Parse ClassDecl := do
  expectKeyword .Class
  let name ← parseIdent
  let typeParams ← parseOptTypeParams
  let extends_ ← parseExtends
  let implements ← parseIdents .Implements
  expect .lBrace
  let members ← parseClassMembers r
  expect .rBrace
  return { name, typeParams, extends_, implements, fields := members.1, methods := members.2,
           doc := none, annotations := [] }

/-- Methods of an interface or trait, up to its closing brace. -/
def parseSignatures : Parse (List FunctionDecl) :=
  loop (fun methods => do
    if ← check .rBrace then
      return .inr methods
    else
      let doc ← takeDoc
      return .inl (methods ++ [{ ← parseFn r with doc }])) []

/-- `parse_interface`. -/
def parseInterface : Parse InterfaceDecl := do
  expectKeyword .Interface
  let name ← parseIdent
  let extends_ ← parseIdents .Extends
  expect .lBrace
  let methods ← parseSignatures r
  expect .rBrace
  return { name, extends_, methods, doc := none, annotations := [] }

/-- `parse_trait`. -/
def parseTrait : Parse TraitDecl := do
  expectKeyword .Trait
  let name ← parseIdent
  expect .lBrace
  let methods ← parseSignatures r
  expect .rBrace
  return { name, methods, doc := none, annotations := [] }

/-- An argument of an enum variant, with an optional name. -/
def parseVariantArg : Parse Ty := do
  skipArgName
  r.type

/-- `parse_enum_variant`. -/
def parseEnumVariant : Parse EnumVariant := do
  let name ← parseIdent
  if ← consume .lParen then
    let args ← commaListTrailing (parseVariantArg r) .rParen
    expect .rParen
    return { name, args, doc := none }
  else
    return { name, args := [], doc := none }

/-- The separator behind an enum variant. -/
def parseVariantEnd : Parse Unit := do
  if ← check .rBrace then
    let _ ← consume .comma
    let _ ← consume .semicolon
  else if !(← consume .comma) && !(← consume .semicolon) then
    error "expected ',' or ';'"

/-- `parse_enum`. -/
def parseEnum : Parse EnumDecl := do
  expectKeyword .Enum
  let name ← parseIdent
  expect .lBrace
  let variants ← loop (fun variants => do
    if ← check .rBrace then
      return .inr variants
    else
      let doc ← takeDoc
      let variant ← parseEnumVariant r
      parseVariantEnd
      return .inl (variants ++ [{ variant with doc }])) []
  expect .rBrace
  return { name, variants, doc := none, annotations := [] }

/-- Names behind the separators that `separator` consumes. -/
def parsePath (separator : Parse Bool) : Parse (List Ident) := do
  let first ← parseIdent
  loop (fun path => do
    if ← separator then
      return .inl (path ++ [← parseIdent])
    else
      return .inr path) [first]

/-- `self.consume(Dot) || self.consume(ColonColon)`. -/
def consumePathSeparator : Parse Bool := do
  if ← consume .dot then
    return true
  else
    consume .colonColon

/-- `parse_import`. -/
def parseImport : Parse ImportDecl := do
  expectKeyword .Import
  let path ← parsePath consumePathSeparator
  let importAlias ← (do
    if ← consumeKeyword .As then
      return some (← parseIdent)
    else
      return none)
  expect .semicolon
  return { path, importAlias }

/-- The name of a module, behind `module`. -/
def parseModuleName : Parse Ident := do
  let path ← parsePath (consume .dot)
  let _ ← consume .semicolon
  return ".".intercalate path

/-- A declaration that can stand in a namespace, or `none`. -/
def parseNamespaceDecl (doc : Option String) (annotations : List Annotation) :
    Parse (Option Decl) := do
  if ← checkKeyword .Class then
    return some (.class_ { ← parseClass r with doc, annotations })
  else if ← checkKeyword .Interface then
    return some (.interface { ← parseInterface r with doc, annotations })
  else if ← checkKeyword .Enum then
    return some (.enum { ← parseEnum r with doc, annotations })
  else if ← checkKeyword .Trait then
    return some (.trait { ← parseTrait r with doc, annotations })
  else if ← checkKeyword .Immutable then
    return some (.immutable (← parseImmutable r))
  else if ← checkKeyword .Extern then
    return some (.function (← parseExternFn r))
  else if (← checkKeyword .Fn) || (← checkKeyword .Async) then
    let isAsync ← consumeKeyword .Async
    return some (.function { ← parseFn r with isAsync, annotations })
  else
    return none

/-- One declaration of a namespace.  At another token an error is recorded. -/
def parseNamespaceMember (decls : List Decl) : Parse (List Decl) := do
  let doc ← takeDoc
  let annotations ← parseAnnotations r
  match ← parseNamespaceDecl r doc annotations with
  | some decl => return decls ++ [decl]
  | none => do
      pushError (.message
        "expected 'class', 'interface', 'enum', 'trait', or 'immutable' inside namespace")
      synchronize
      return decls

/-- `parse_namespace`. -/
def parseNamespace (annotations : List Annotation) : Parse Decl := do
  expectKeyword .Namespace
  let name ← parsePath (consume .dot)
  expect .lBrace
  let decls ← loop (fun decls => do
    if (← check .rBrace) || (← isAtEnd) then
      return .inr decls
    else
      return .inl (← parseNamespaceMember r decls)) []
  expect .rBrace
  return .namespace_ name decls annotations

/-- `parse_decl`. -/
def parseDecl : Parse Decl := do
  let annotations ← parseAnnotations r
  let doc ← takeDoc
  if ← consumeKeyword .Async then
    if ← checkKeyword .Fn then
      return .function { ← parseFn r with isAsync := true, doc, annotations }
    else
      error "expected 'fn' after 'async'"
  else if ← checkKeyword .Fn then
    return .function { ← parseFn r with doc, annotations }
  else if ← checkKeyword .Class then
    return .class_ { ← parseClass r with doc, annotations }
  else if ← checkKeyword .Interface then
    return .interface { ← parseInterface r with doc, annotations }
  else if ← checkKeyword .Enum then
    return .enum { ← parseEnum r with doc, annotations }
  else if ← checkKeyword .Trait then
    return .trait { ← parseTrait r with doc, annotations }
  else if ← checkKeyword .Import then
    return .import_ (← parseImport)
  else if ← checkKeyword .Module then
    bump
    return .module (← parseModuleName)
  else if ← checkKeyword .Namespace then
    parseNamespace r annotations
  else if ← checkKeyword .Extern then
    return .function (← parseExternFn r)
  else if ← checkKeyword .Immutable then
    return .immutable { ← parseImmutable r with doc, annotations }
  else
    error "expected declaration"

/-- One declaration of a source file.  After an error the parser goes on behind
it. -/
def parseFileDecl (decls : List Decl) : Parse (List Decl) :=
  recover (parseDecl r) (fun decl => return decls ++ [decl]) (do
    synchronize
    return decls)

/-- The loop of `parse`. -/
def parseFile : Parse (List Decl) :=
  loop (fun decls => do
    if ← isAtEnd then
      return .inr decls
    else
      return .inl (← parseFileDecl r decls)) []

end Grammar

section Knot

variable (tokenize : String → Option (List TokenKind))

/-- `parse_expr_str`: an expression of a string interpolation is read by a
fresh parser. -/
def parseExprStr (r : Rec) (source : String) : Option (Except ParseError Expr) :=
  match tokenize source with
  | none => some (.error (.interpolation source))
  | some tokens =>
      match parseExpr r { rest := tokens, errors := [], depth := 0 } with
      | none => none
      | some (.error _, _) => some (.error (.interpolation source))
      | some (.ok expr, _) => some (.ok expr)

/-- The recursive functions of the parser for at most `fuel` calls of each
other inside each other. -/
def knot : Nat → Rec
  | 0 =>
      { expr := outOfFuel, assignExpr := outOfFuel, ternaryExpr := outOfFuel,
        unaryExpr := outOfFuel, postfixExpr := outOfFuel, stmt := outOfFuel,
        ifStmt := outOfFuel, type := outOfFuel, pattern := outOfFuel,
        annotationArg := outOfFuel, exprStr := fun _ => none }
  | fuel + 1 =>
      { expr := parseExpr (knot fuel), assignExpr := parseAssignExpr (knot fuel),
        ternaryExpr := parseTernaryExpr (knot fuel), unaryExpr := parseUnaryExpr (knot fuel),
        postfixExpr := parsePostfixExpr (knot fuel), stmt := parseStmt (knot fuel),
        ifStmt := parseIfStmt (knot fuel), type := parseType (knot fuel),
        pattern := parsePattern (knot fuel), annotationArg := parseAnnotationArg (knot fuel),
        exprStr := parseExprStr tokenize (knot fuel) }

/-- `Parser::parse`: the source file, or the errors. -/
def parse (fuel : Nat) (tokens : List TokenKind) :
    Option (Except (List ParseError) SourceFile) :=
  match parseFile (knot tokenize fuel) { rest := tokens, errors := [], depth := 0 } with
  | none => none
  | some (.error e, s) => some (.error (s.errors ++ [e]))
  | some (.ok decls, s) =>
      if s.errors.isEmpty then some (.ok { decls }) else some (.error s.errors)

end Knot

end Tinox.Parser
