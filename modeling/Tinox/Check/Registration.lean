import Tinox.Check.Program

/-!
# Registration

`register_declarations`: what the declarations of a program leave in the tables
before the first body is checked.  The functions that every program knows, and
the orders in which hash maps are iterated, are arguments.
-/

namespace Tinox.Check

open Tinox.Syntax

mutual

/-- `expr_uses_this`. -/
def exprUsesThis : Expr → Bool
  | .this => true
  | .literal _ | .ident _ | .channel | .breakExpr | .continueExpr => false
  | .binary _ lhs rhs => exprUsesThis lhs || exprUsesThis rhs
  | .unary _ operand => exprUsesThis operand
  | .call func args => exprUsesThis func || exprsUseThis args
  | .methodCall obj _ args => exprUsesThis obj || exprsUseThis args
  | .superCall _ args | .new _ _ args | .enumValue _ _ _ args => exprsUseThis args
  | .index obj index => exprUsesThis obj || exprUsesThis index
  | .fieldAccess obj _ => exprUsesThis obj
  | .arrayLiteral elems | .tuple elems => exprsUseThis elems
  | .mapLiteral entries => entriesUseThis entries
  | .structLiteral _ fields => fieldsUseThis fields
  | .block stmts => stmtsUseThis stmts
  | .ifExpr cond thenBranch elseBranch =>
      exprUsesThis cond || exprUsesThis thenBranch || optionUsesThis elseBranch
  | .whileExpr cond body => exprUsesThis cond || exprUsesThis body
  | .forExpr _ iter body => exprUsesThis iter || exprUsesThis body
  | .loopExpr body => exprUsesThis body
  | .matchExpr expr cases => exprUsesThis expr || casesUseThis cases
  | .returnExpr value => optionUsesThis value
  | .throwExpr value => exprUsesThis value
  | .assign target value | .compoundAssign _ target value =>
      exprUsesThis target || exprUsesThis value
  | .lambda _ _ body => exprUsesThis body
  | .spawn expr | .await expr | .recv expr | .cast expr _ | .is expr _ | .tupleIndex expr _ =>
      exprUsesThis expr
  | .send channel value => exprUsesThis channel || exprUsesThis value
  | .range start stop _ => exprUsesThis start || exprUsesThis stop
  | .tryExpr body catches finally_ =>
      exprUsesThis body || catchesUseThis catches || optionUsesThis finally_

def exprsUseThis : List Expr → Bool
  | [] => false
  | e :: es => exprUsesThis e || exprsUseThis es

def entriesUseThis : List (Expr × Expr) → Bool
  | [] => false
  | (key, value) :: entries => exprUsesThis key || exprUsesThis value || entriesUseThis entries

def fieldsUseThis : List (Ident × Expr) → Bool
  | [] => false
  | (_, value) :: fields => exprUsesThis value || fieldsUseThis fields

def optionUsesThis : Option Expr → Bool
  | some e => exprUsesThis e
  | none => false

def casesUseThis : List MatchCase → Bool
  | [] => false
  | .mk _ guard body :: cases => exprUsesThis body || optionUsesThis guard || casesUseThis cases

def catchesUseThis : List CatchClause → Bool
  | [] => false
  | .mk _ _ body :: catches => stmtUsesThis body || catchesUseThis catches

/-- `stmt_uses_this`.  The channels of a select are not looked at. -/
def stmtUsesThis : Stmt → Bool
  | .expr e => exprUsesThis e
  | .letStmt _ _ value | .varStmt _ _ value => optionUsesThis value
  | .assignment target value => exprUsesThis target || exprUsesThis value
  | .ifStmt cond thenBranch elseBranch =>
      exprUsesThis cond || stmtUsesThis thenBranch || optionStmtUsesThis elseBranch
  | .whileStmt cond body => exprUsesThis cond || stmtUsesThis body
  | .forStmt _ iter body => exprUsesThis iter || stmtUsesThis body
  | .forC init cond update body =>
      optionStmtUsesThis init || optionUsesThis cond || optionUsesThis update || stmtUsesThis body
  | .loop body => stmtUsesThis body
  | .block stmts => stmtsUseThis stmts
  | .returnStmt value => optionUsesThis value
  | .throwStmt value => exprUsesThis value
  | .tryStmt body catches finally_ =>
      stmtUsesThis body || catchesUseThis catches || optionStmtUsesThis finally_
  | .deferStmt stmt => stmtUsesThis stmt
  | .select arms default => armsUseThis arms || optionStmtUsesThis default
  | .breakStmt | .continueStmt | .empty => false

def stmtsUseThis : List Stmt → Bool
  | [] => false
  | stmt :: stmts => stmtUsesThis stmt || stmtsUseThis stmts

def optionStmtUsesThis : Option Stmt → Bool
  | some stmt => stmtUsesThis stmt
  | none => false

def armsUseThis : List SelectArm → Bool
  | [] => false
  | .mk _ _ body :: arms => stmtUsesThis body || armsUseThis arms

end

mutual

/-- `type_references_param`. -/
def typeReferencesParam (params : List String) : Ty → Bool
  | .named name => params.contains name
  | .generic name args => params.contains name || typesReferenceParam params args
  | .array inner | .ref inner | .mutable inner | .nullable inner => typeReferencesParam params inner
  | .map key value => typeReferencesParam params key || typeReferencesParam params value
  | .fn args ret => typesReferenceParam params args || typeReferencesParam params ret
  | .tuple types => typesReferenceParam params types
  | _ => false

def typesReferenceParam (params : List String) : List Ty → Bool
  | [] => false
  | type :: types => typeReferencesParam params type || typesReferenceParam params types

end

/-- `erase_method_return_type`. -/
def eraseMethodReturnType (retType : Ty) (own erased : List String) : ValueType :=
  match retType with
  | .generic name args =>
      if !own.isEmpty && typeReferencesParam own (.generic name args) then .any
      else typeToValueErasing erased (.generic name args)
  | type => typeToValueErasing erased type

/-- The key of a field among the variables. -/
def fieldKey (className field : String) : String :=
  className ++ "." ++ field

/-- `entry(key).or_insert(value)`. -/
def orInsert {α : Type} (table : String → Option α) (key : String) (value : α) :
    String → Option α :=
  if (table key).isSome then table else Function.update table key (some value)

namespace Registered

def insertFunction (r : Registered) (key : String) (signature : Signature) : Registered :=
  { r with
    tables :=
      { r.tables with functions := Function.update r.tables.functions key (some signature) } }

def insertMember (r : Registered) (key : String) (type : ValueType) (mutable : Bool) : Registered :=
  { r with members := (key, type, mutable) :: r.members }

def insertFieldVisibility (r : Registered) (key : String) (visibility : Visibility) : Registered :=
  { r with
    tables :=
      { r.tables with
        fieldVisibility := Function.update r.tables.fieldVisibility key (some visibility) } }

def insertMethodVisibility (r : Registered) (key : String) (visibility : Visibility) :
    Registered :=
  { r with
    tables :=
      { r.tables with
        methodVisibility := Function.update r.tables.methodVisibility key (some visibility) } }

/-- `method_uses_this.insert`, if a condition holds. -/
def insertUsesThis (r : Registered) (condition : Bool) (key : String) : Registered :=
  if condition then
    { r with tables := { r.tables with methodUsesThis := key :: r.tables.methodUsesThis } }
  else r

end Registered

/-- The parameters of a signature. -/
def signatureParams (erased : List String) (params : List Param) : List (String × ValueType) :=
  params.map fun param => (param.name, typeToValueErasing erased param.paramType)

def registerFunction (r : Registered) (f : FunctionDecl) : Registered :=
  r.insertFunction f.name
    { params := signatureParams f.typeParams f.params
      returnType := typeToValueErasing f.typeParams f.retType }

def registerField (className : String) (r : Registered) (field : FieldDef) : Registered :=
  (r.insertMember (fieldKey className field.name) (fromParserType field.fieldType)
    true).insertFieldVisibility (fieldKey className field.name) field.visibility

/-- The unerased types of the parameters of a generic method. -/
def unerasedParams (c : ClassDecl) (method : Method) : List ValueType :=
  (if method.static_ then []
    else [.named c.name (c.typeParams.map fun param => .named param [])]) ++
    method.params.map fun param => fromParserType param.paramType

/-- The types of the parameters of each parameter of a function type. -/
def fnHints (params : List Param) : List (Nat × List ValueType) :=
  params.zipIdx.filterMap fun (param, index) =>
    match param.paramType with
    | .fn (first :: rest) _ => some (index, (first :: rest).map fromParserType)
    | _ => none

/-- What is known about a generic method besides its signature. -/
def registerGeneric (c : ClassDecl) (method : Method) (r : Registered) : Registered :=
  let erased := c.typeParams ++ method.typeParams
  let key := methodSymbol c.name method.name
  if erased.isEmpty then r
  else
    { r with
      tables :=
        { r.tables with
          genericMethodParamTypes := Function.update r.tables.genericMethodParamTypes key
            (some (unerasedParams c method, erased))
          genericInstanceFnArgHints :=
            if (fnHints method.params).isEmpty then r.tables.genericInstanceFnArgHints
            else Function.update r.tables.genericInstanceFnArgHints key
              (some (fnHints method.params)) } }

/-- The signature of a method, whose first parameter is the receiver. -/
def methodSignature (c : ClassDecl) (method : Method) : Signature :=
  let erased := c.typeParams ++ method.typeParams
  { params := (if method.static_ then [] else [("self", .named c.name [])]) ++
      signatureParams erased method.params
    returnType := eraseMethodReturnType method.retType method.typeParams erased }

def registerMethod (c : ClassDecl) (r : Registered) (method : Method) : Registered :=
  let key := methodSymbol c.name method.name
  let r := r.insertUsesThis (!method.static_ && stmtUsesThis method.body) key
  let r := registerGeneric c method r
  (r.insertFunction key (methodSignature c method)).insertMethodVisibility key method.visibility

def ClassDecl.hasAnnotation (c : ClassDecl) (name : String) : Bool :=
  c.annotations.any fun annotation => annotation.name = name

/-- `@Log` adds a logger. -/
def registerLog (c : ClassDecl) (r : Registered) : Registered :=
  if ClassDecl.hasAnnotation c "Log" then
    (r.insertMember (fieldKey c.name "log") (.named "Logger" []) false).insertFieldVisibility
      (fieldKey c.name "log") .pub
  else r

/-- `@JsonSerializable` adds two generated methods. -/
def registerJson (c : ClassDecl) (r : Registered) : Registered :=
  if ClassDecl.hasAnnotation c "JsonSerializable" then
    (r.insertFunction (methodSymbol c.name "toJson")
      ⟨[("self", .named c.name [])], .string⟩).insertFunction (methodSymbol c.name "fromJson")
        ⟨[("json_val", .named "JsonValue" [])], .named c.name []⟩
  else r

/-- The parent, the interfaces and the names of the fields of a class. -/
def registerHead (c : ClassDecl) (r : Registered) : Registered :=
  { r with
    tables :=
      { r.tables with
        classParents :=
          match c.extends_ with
          | some parent => (c.name, parent) :: r.tables.classParents
          | none => r.tables.classParents
        interfaceImplementations :=
          Function.update r.tables.interfaceImplementations c.name (some c.implements)
        classFields :=
          Function.update r.tables.classFields c.name (some (c.fields.map FieldDef.name)) } }

def registerClass (r : Registered) (c : ClassDecl) : Registered :=
  let r := c.fields.foldl (registerField c.name) (registerHead c r)
  registerJson c (c.methods.foldl (registerMethod c) (registerLog c r))

/-- `register_enum_variants`. -/
def registerEnumVariants (known : List String) (variants : List String) : List String :=
  variants.foldl (fun known variant =>
    if known.contains variant then known else known ++ [variant]) known

def registerVariant (enumName : String) (r : Registered) (variant : EnumVariant) : Registered :=
  Registered.insertMember
    { r with
      tables :=
        { r.tables with
          enumVariantPayloads := Function.update r.tables.enumVariantPayloads
            (enumName ++ "::" ++ variant.name) (some (variant.args.map fromParserType)) } }
    (fieldKey enumName variant.name) (.named (fieldKey enumName variant.name) []) true

def registerEnum (r : Registered) (e : EnumDecl) : Registered :=
  e.variants.foldl (registerVariant e.name)
    { r with
      tables :=
        { r.tables with
          enums := Function.update r.tables.enums e.name (some (registerEnumVariants
            ((r.tables.enums e.name).getD []) (e.variants.map EnumVariant.name))) } }

def registerImmutableField (name : String) (r : Registered) (field : Param) : Registered :=
  (r.insertMember (fieldKey name field.name) (fromParserType field.paramType)
    true).insertFieldVisibility (fieldKey name field.name) .pub

def registerImmutable (r : Registered) (u : ImmutableDecl) : Registered :=
  ((u.fields.foldl (registerImmutableField u.name) r).insertFunction (methodSymbol u.name "new")
    { params := u.fields.map fun field => (field.name, fromParserType field.paramType)
      returnType := .named u.name [] }).insertMethodVisibility (methodSymbol u.name "new") .pub

/-- The first pass for one declaration.  The tables of interfaces are kept apart. -/
def enterDecl (r : Registered) : Decl → Registered
  | .function f => registerFunction r f
  | .class_ c => registerClass r c
  | .enum e => registerEnum r e
  | .immutable u => registerImmutable r u
  | _ => r

/-- The methods of interfaces, with those that interfaces inherit. -/
def enterInterfaces (file : SourceFile) (orders : Orders file) (r : Registered) : Registered :=
  let expanded := registerDeclarations r.tables.functions file orders
  { r with
    tables := { r.tables with functions := expanded.functions }
    interfaces := expanded.interfaces
    errors := r.errors ++ expanded.errors.map fun error => .other error.message }

def classOf : Decl → Option ClassDecl
  | .class_ c => some c
  | _ => none

/-- The classes of a program. -/
def classesOf (file : SourceFile) : List ClassDecl :=
  (flattenDecls file).filterMap classOf

/-- `class_map`: the last class of each name. -/
def classMap (file : SourceFile) (name : String) : Option ClassDecl :=
  (classesOf file).reverse.find? fun c => c.name == name

/-- The classes that the walk through the parents meets. -/
def ancestors (file : SourceFile) : Nat → Option Ident → List ClassDecl
  | fuel + 1, some name =>
      match classMap file name with
      | some c => c :: ancestors file fuel c.extends_
      | none => []
  | _, _ => []

/-- A field that a class inherits, unless something is known under its key. -/
def inheritField (c : ClassDecl) (r : Registered) (field : FieldDef) : Registered :=
  let key := fieldKey c.name field.name
  if (c.fields.map FieldDef.name).contains field.name || (r.members.lookup key).isSome then r
  else
    let r := r.insertMember key (fromParserType field.fieldType) true
    let known := (r.tables.classFields c.name).getD []
    { r with
      tables :=
        { r.tables with
          fieldVisibility := orInsert r.tables.fieldVisibility key field.visibility
          classFields := Function.update r.tables.classFields c.name
            (some (if known.contains field.name then known else known ++ [field.name])) } }

/-- A method that a class inherits, unless a function is known under its symbol. -/
def inheritClassMethod (c : ClassDecl) (r : Registered) (method : Method) : Registered :=
  let key := methodSymbol c.name method.name
  if (c.methods.map Method.name).contains method.name || (r.tables.functions key).isSome then r
  else
    let r := r.insertUsesThis (stmtUsesThis method.body) key
    let r := r.insertFunction key
      { params := ("self", .named c.name []) ::
          method.params.map fun param => (param.name, fromParserType param.paramType)
        returnType := fromParserType method.retType }
    { r with
      tables :=
        { r.tables with
          methodVisibility := orInsert r.tables.methodVisibility key method.visibility } }

/-- The members that a class inherits from one of its ancestors. -/
def inheritFrom (c : ClassDecl) (r : Registered) (ancestor : ClassDecl) : Registered :=
  ancestor.methods.foldl (inheritClassMethod c) (ancestor.fields.foldl (inheritField c) r)

/-- A class whose members are complete is known by its name. -/
def enterClassName (c : ClassDecl) (r : Registered) : Registered :=
  { r with
    tables :=
      { r.tables with
        knownClassNames := c.name :: r.tables.knownClassNames
        genericClassNames :=
          if c.typeParams.isEmpty then r.tables.genericClassNames
          else c.name :: r.tables.genericClassNames
        classTypeParams :=
          if c.typeParams.isEmpty then r.tables.classTypeParams
          else Function.update r.tables.classTypeParams c.name (some c.typeParams) } }

/-- The third pass for one class. -/
def inheritClass (file : SourceFile) (r : Registered) (c : ClassDecl) : Registered :=
  match c.extends_ with
  | some parent =>
      if (classMap file parent).isNone then
        { r with errors := r.errors ++ [.other ("undefined parent class: " ++ parent)] }
      else
        enterClassName c
          ((ancestors file (classesOf file).length c.extends_).foldl (inheritFrom c) r)
  | none => enterClassName c r

/-- An order in which the third pass may process the classes: a class comes behind its parent,
and only classes whose parents are never processed are left out. -/
structure Processing (file : SourceFile) where
  order : List ClassDecl
  nodup : (order.map ClassDecl.name).Nodup
  classes : ∀ c ∈ order, classMap file c.name = some c
  parentsFirst : ∀ before c after parent, order = before ++ c :: after →
    c.extends_ = some parent → (classMap file parent).isSome →
      parent ∈ before.map ClassDecl.name
  complete : ∀ name c, classMap file name = some c →
    (∀ parent, c.extends_ = some parent → (classMap file parent).isSome →
      parent ∈ order.map ClassDecl.name) → c ∈ order

/-- A checker that knows the functions of every program. -/
def newChecker (builtins : String → Option Signature) : Registered :=
  { nothingRegistered with tables := { noTables with functions := builtins } }

/-- The first pass. -/
def enterAllDecls (builtins : String → Option Signature) (file : SourceFile) : Registered :=
  (flattenDecls file).foldl enterDecl (newChecker builtins)

/-- `register_declarations`. -/
def register (builtins : String → Option Signature) (file : SourceFile) (orders : Orders file)
    (processing : Processing file) : Registered :=
  processing.order.foldl (inheritClass file)
    (enterInterfaces file orders (enterAllDecls builtins file))

end Tinox.Check
