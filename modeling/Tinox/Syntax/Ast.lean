import Tinox.Syntax.Token

/-!
# Abstract syntax

The syntax trees that the parser builds and every later pass walks.  Positions,
node ids and file stamps are dropped.
-/

namespace Tinox.Syntax

/-- Identifiers. -/
abbrev Ident := String

/-- Types as written in the source (`Type`). -/
inductive Ty where
  | int8 | int16 | int32 | int64 | uint8 | uint16 | uint32 | uint64
  | float32 | float64 | bool | char | string | nothing | never | any | infer
  | named (name : Ident)
  | generic (name : Ident) (args : List Ty)
  | array (elem : Ty)
  | map (key value : Ty)
  | mutable (inner : Ty)
  | ref (inner : Ty)
  | fn (params : List Ty) (ret : Ty)
  | tuple (types : List Ty)
  | nullable (inner : Ty)
  deriving Repr, Inhabited

/-- Literals. -/
inductive Literal where
  | integer (value : Int)
  | float (bits : UInt64)
  | string (value : String)
  | char (value : Char)
  | byte (value : UInt8)
  | bool (value : Bool)
  | null
  deriving DecidableEq, Repr, Inhabited

/-- Match patterns. -/
inductive Pattern where
  | wildcard
  | ident (name : Ident) (sub : Option Pattern)
  | literal (value : Literal)
  | tuple (patterns : List Pattern)
  | enumVariant (enumName variant : Ident) (args : List Pattern)
  deriving Repr, Inhabited

/-- Binary operators. -/
inductive BinaryOp where
  | add | sub | mul | div | mod | and | or | bitAnd | bitOr | xor
  | shl | shr | shrArith | eq | ne | lt | le | gt | ge
  deriving DecidableEq, Repr

/-- Operators of compound assignments. -/
inductive CompoundOp where
  | add | sub | mul | div | mod | bitAnd | bitOr | bitXor | shl | shr | shrArith
  deriving DecidableEq, Repr

/-- Unary operators. -/
inductive UnaryOp where
  | neg | not | bitNot
  deriving DecidableEq, Repr

/-- Arguments of annotations. -/
inductive AnnotationArg where
  | literal (value : Literal)
  | enumValue (typeName variant : String)
  | array (items : List AnnotationArg)
  deriving Repr, Inhabited

/-- Annotations `@Name(args)`. -/
structure Annotation where
  name : Ident
  args : List AnnotationArg
  deriving Repr, Inhabited

/-- Parameters of functions, methods and lambdas. -/
structure Param where
  name : Ident
  paramType : Ty
  annotations : List Annotation
  deriving Repr, Inhabited

mutual

/-- Expressions (`ExprKind`). -/
inductive Expr where
  | literal (value : Literal)
  | arrayLiteral (elems : List Expr)
  | mapLiteral (entries : List (Expr × Expr))
  | ident (name : Ident)
  | binary (op : BinaryOp) (lhs rhs : Expr)
  | unary (op : UnaryOp) (operand : Expr)
  | call (func : Expr) (args : List Expr)
  | methodCall (obj : Expr) (method : Ident) (args : List Expr)
  | index (obj index : Expr)
  | fieldAccess (obj : Expr) (field : Ident)
  | this
  | superCall (method : Ident) (args : List Expr)
  | new (className : Ident) (typeArgs : List Ty) (args : List Expr)
  | structLiteral (name : Ident) (fields : List (Ident × Expr))
  | block (stmts : List Stmt)
  | ifExpr (cond thenBranch : Expr) (elseBranch : Option Expr)
  | whileExpr (cond body : Expr)
  | forExpr (var : Ident) (iter body : Expr)
  | loopExpr (body : Expr)
  | matchExpr (expr : Expr) (cases : List MatchCase)
  | returnExpr (value : Option Expr)
  | breakExpr
  | continueExpr
  | throwExpr (value : Expr)
  | tryExpr (body : Expr) (catches : List CatchClause) (finally_ : Option Expr)
  | assign (target value : Expr)
  | compoundAssign (op : CompoundOp) (target value : Expr)
  | lambda (params : List Param) (retType : Option Ty) (body : Expr)
  | spawn (expr : Expr)
  | await (expr : Expr)
  | channel
  | send (channel value : Expr)
  | recv (channel : Expr)
  | cast (expr : Expr) (ty : Ty)
  | is (expr : Expr) (ty : Ty)
  | range (start stop : Expr) (inclusive : Bool)
  | tuple (elems : List Expr)
  | tupleIndex (tuple : Expr) (index : Nat)
  | enumValue (enumName variant : Ident) (typeArgs : List Ty) (args : List Expr)

/-- Arms of a match. -/
inductive MatchCase where
  | mk (pattern : Pattern) (guard : Option Expr) (body : Expr)

/-- Catch clauses of a try. -/
inductive CatchClause where
  | mk (param : Ident) (ty : Ty) (body : Stmt)

/-- Statements (`StmtKind`). -/
inductive Stmt where
  | expr (expr : Expr)
  | letStmt (name : Ident) (ty : Option Ty) (value : Option Expr)
  | varStmt (name : Ident) (ty : Option Ty) (value : Option Expr)
  | assignment (target value : Expr)
  | ifStmt (cond : Expr) (thenBranch : Stmt) (elseBranch : Option Stmt)
  | whileStmt (cond : Expr) (body : Stmt)
  | forStmt (var : Ident) (iter : Expr) (body : Stmt)
  | forC (init : Option Stmt) (cond update : Option Expr) (body : Stmt)
  | loop (body : Stmt)
  | returnStmt (value : Option Expr)
  | breakStmt
  | continueStmt
  | throwStmt (value : Expr)
  | tryStmt (body : Stmt) (catches : List CatchClause) (finally_ : Option Stmt)
  | deferStmt (stmt : Stmt)
  | block (stmts : List Stmt)
  | select (arms : List SelectArm) (default : Option Stmt)
  | empty

/-- Arms of a select. -/
inductive SelectArm where
  | mk (channel : Expr) (var : Ident) (body : Stmt)

end

/-- Member visibility. -/
inductive Visibility where
  | pub | priv | prot | package
  deriving DecidableEq, Repr

/-- Free functions and interface methods. -/
structure FunctionDecl where
  name : Ident
  typeParams : List String
  params : List Param
  retType : Ty
  body : Stmt
  isAsync : Bool
  doc : Option String
  annotations : List Annotation

/-- Class methods. -/
structure Method where
  name : Ident
  typeParams : List String
  params : List Param
  retType : Ty
  body : Stmt
  static_ : Bool
  visibility : Visibility
  isAsync : Bool
  doc : Option String
  annotations : List Annotation

/-- Class fields. -/
structure FieldDef where
  name : Ident
  fieldType : Ty
  visibility : Visibility
  mutable : Bool
  doc : Option String
  annotations : List Annotation

/-- Classes. -/
structure ClassDecl where
  name : Ident
  typeParams : List String
  extends_ : Option Ident
  implements : List Ident
  fields : List FieldDef
  methods : List Method
  doc : Option String
  annotations : List Annotation

/-- Interfaces. -/
structure InterfaceDecl where
  name : Ident
  extends_ : List Ident
  methods : List FunctionDecl
  doc : Option String
  annotations : List Annotation

/-- Variants of an enumeration. -/
structure EnumVariant where
  name : Ident
  args : List Ty
  doc : Option String

/-- Enumerations. -/
structure EnumDecl where
  name : Ident
  variants : List EnumVariant
  doc : Option String
  annotations : List Annotation

/-- Traits. -/
structure TraitDecl where
  name : Ident
  methods : List FunctionDecl
  doc : Option String
  annotations : List Annotation

/-- Immutable record declarations. -/
structure ImmutableDecl where
  name : Ident
  fields : List Param
  doc : Option String
  annotations : List Annotation

/-- Imports. -/
structure ImportDecl where
  path : List Ident
  importAlias : Option Ident

/-- Declarations (`DeclKind`). -/
inductive Decl where
  | function (f : FunctionDecl)
  | class_ (c : ClassDecl)
  | interface (i : InterfaceDecl)
  | enum (e : EnumDecl)
  | trait (t : TraitDecl)
  | import_ (i : ImportDecl)
  | module (name : Ident)
  | namespace_ (name : List Ident) (decls : List Decl) (annotations : List Annotation)
  | immutable (u : ImmutableDecl)

/-- A parsed source file. -/
structure SourceFile where
  decls : List Decl

end Tinox.Syntax
