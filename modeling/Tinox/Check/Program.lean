import Tinox.Check.Infer
import Tinox.Check.Interfaces

/-!
# Checking programs

The bodies of functions and methods are checked one after the other against
the tables that registration has filled.
-/

namespace Tinox.Check

open Tinox.Syntax Check

/-- `type_to_value_erasing`. -/
def typeToValueErasing (params : List String) : Ty → ValueType
  | .named name => if params.contains name then .any else fromParserType (.named name)
  | .array inner => .array (typeToValueErasing params inner)
  | .map _ value => .map (typeToValueErasing params value)
  | .generic name [arg] =>
      if params.contains name then .any
      else if name = "List" ∨ name = "Array" then .array (typeToValueErasing params arg)
      else fromParserType (.generic name [arg])
  | .generic name [key, value] =>
      if params.contains name then .any
      else if name = "Map" then .map (typeToValueErasing params value)
      else fromParserType (.generic name [key, value])
  | .generic name args => if params.contains name then .any else fromParserType (.generic name args)
  | type => fromParserType type

/-- `resolve_type`. -/
def resolveType (t : Tables) : Ty → ValueType
  | .named name => if t.typeParamScope.contains name then .any else fromParserType (.named name)
  | .generic name args =>
      if t.typeParamScope.contains name then .any else fromParserType (.generic name args)
  | type => fromParserType type

/-- A body with what is known where it is checked. -/
structure Body where
  tables : Tables
  /-- The parameters, with the receiver of a method. -/
  params : List (Ident × ValueType)
  returnType : ValueType
  /-- The end of the body must not be reached. -/
  mustReturn : Bool
  stmt : Stmt

/-- Whether values of a type are returned. -/
def returnsValue (type : ValueType) : Bool :=
  !(type == .nothing) && !(type == .never)

def isExtern : Stmt → Bool
  | .empty => true
  | _ => false

/-- The body of a function. -/
def functionBody (t : Tables) (f : FunctionDecl) : Body :=
  let t := { t with typeParamScope := f.typeParams }
  { tables := t
    params := f.params.map fun param => (param.name, resolveType t param.paramType)
    returnType := resolveType t f.retType
    mustReturn := !isExtern f.body && returnsValue (resolveType t f.retType)
    stmt := f.body }

/-- The body of a method, static or not. -/
def methodBody (t : Tables) (c : ClassDecl) (method : Method) : Body :=
  let erased := c.typeParams ++ method.typeParams
  let returnType := typeToValueErasing erased method.retType
  { tables := { t with typeParamScope := method.typeParams, currentClass := some c.name }
    params := ("self", .named c.name []) ::
      method.params.map fun param => (param.name, typeToValueErasing erased param.paramType)
    returnType
    mustReturn := returnsValue returnType
    stmt := method.body }

/-- The parameters are immutable variables; a later one hides an earlier one. -/
def insertParams : List (Ident × ValueType) → Check Unit
  | [] => pure ()
  | (name, type) :: params => do
      insertVariable name type
      insertParams params

/-- The part that `check_function` and `check_class` have in common. -/
def checkBody (body : Body) : Check Unit :=
  inScope (do
    insertParams body.params
    let hasReturn ← returning (some body.returnType) (checkStmt body.tables body.stmt)
    require (!body.mustReturn || hasReturn) (.other "missing return statement"))

/-- `check_function`. -/
def checkFunction (t : Tables) (f : FunctionDecl) : Check Unit :=
  checkBody (functionBody t f)

/-- The parameters of a method against those that an interface requires. -/
def checkParams (t : Tables) (className method : String) :
    Nat → List (String × ValueType) → List (String × ValueType) → Check Unit
  | index, found :: rest, required :: others => do
      require (typesCompatible t.interfaceImplementations found.2 required.2)
        (.other ("method '" ++ method ++ "' param " ++ toString index ++
          " type mismatch in class " ++ className ++ ": expected " ++ required.2.toText ++
          ", found " ++ found.2.toText))
      checkParams t className method (index + 1) rest others
  | _, _, _ => pure ()

/-- One method that an interface requires of a class. -/
def checkRequired (t : Tables) (className iface : String) (required : String × Signature) :
    Check Unit := do
  match t.functions (methodSymbol className required.1) with
  | some found => do
      let count := found.params.length - 1
      if count ≠ required.2.params.length then
        report (.other ("method '" ++ required.1 ++ "' in class " ++ className ++
          " has wrong number of parameters for interface " ++ iface ++ ": expected " ++
          toString required.2.params.length ++ ", found " ++ toString count))
      else do
        checkParams t className required.1 0 (found.params.drop 1) required.2.params
        require (typesCompatible t.interfaceImplementations found.returnType required.2.returnType)
          (.other ("method '" ++ required.1 ++ "' return type mismatch in class " ++ className ++
            ": expected " ++ required.2.returnType.toText ++ ", found " ++
            found.returnType.toText))
  | none =>
      report (.other ("class " ++ className ++ " does not implement method '" ++ required.1 ++
        "' from interface " ++ iface))

/-- The interfaces that a class names. -/
def checkInterfaces (t : Tables) (interfaces : String → Option Methods) (className : String)
    (implements : List Ident) : Check Unit :=
  implements.forM fun iface =>
    ((interfaces iface).getD []).forM (checkRequired t className iface)

/-- `check_class`. -/
def checkClass (t : Tables) (interfaces : String → Option Methods) (c : ClassDecl) :
    Check Unit := do
  c.methods.forM fun method => checkBody (methodBody t c method)
  checkInterfaces t interfaces c.name c.implements

/-- What registration leaves behind: the tables, the keys of fields and variants among the
variables, and errors. -/
structure Registered where
  tables : Tables
  interfaces : String → Option Methods
  members : List (String × Entry)
  errors : List BodyError

/-- The state in which the first body is checked. -/
def Registered.state (registered : Registered) : CheckState where
  variableMap := registered.members
  inLoop := false
  currentReturnType := none
  errors := registered.errors

/-- The tables behind a declaration: a class is entered with its interfaces again. -/
def afterDecl (t : Tables) : Decl → Tables
  | .class_ c =>
      { t with
        interfaceImplementations :=
          Function.update t.interfaceImplementations c.name (some c.implements) }
  | _ => t

def checkDecl (t : Tables) (interfaces : String → Option Methods) : Decl → Check Unit
  | .function f => checkFunction t f
  | .class_ c => checkClass t interfaces c
  | _ => pure ()

/-- The loop of `check_source_file`. -/
def checkDecls (interfaces : String → Option Methods) : Tables → List Decl → Check Unit
  | _, [] => pure ()
  | t, decl :: decls => do
      checkDecl t interfaces decl
      checkDecls interfaces (afterDecl t decl) decls

/-- `check_source_file` behind registration, with the errors of `validate_annotations`. -/
def checkSourceFile (registered : Registered) (annotationErrors : List BodyError)
    (file : SourceFile) : Check Unit := do
  checkDecls registered.interfaces registered.tables (flattenDecls file)
  annotationErrors.forM report

/-- `check` returns no errors. -/
def accepted (registered : Registered) (annotationErrors : List BodyError) (file : SourceFile) :
    Prop :=
  ((checkSourceFile registered annotationErrors file).run registered.state).2.errors = []

/-- The bodies of a declaration. -/
def declBodies (t : Tables) : Decl → List Body
  | .function f => [functionBody t f]
  | .class_ c => c.methods.map (methodBody t c)
  | _ => []

/-- The bodies of a program, each with the tables it is checked against. -/
def bodies : Tables → List Decl → List Body
  | _, [] => []
  | t, decl :: decls => declBodies t decl ++ bodies (afterDecl t decl) decls

/-- The tables before anything is registered. -/
def noTables : Tables where
  functions := fun _ => none
  enums := fun _ => none
  enumVariantPayloads := fun _ => none
  interfaceImplementations := fun _ => none
  classParents := []
  currentClass := none
  methodVisibility := fun _ => none
  fieldVisibility := fun _ => none
  typeParamScope := []
  knownClassNames := []
  genericClassNames := []
  classTypeParams := fun _ => none
  methodUsesThis := []
  genericMethodParamTypes := fun _ => none
  classFields := fun _ => none
  genericInstanceFnArgHints := fun _ => none

def nothingRegistered : Registered where
  tables := noTables
  interfaces := fun _ => none
  members := []
  errors := []

/-- `fn main(params) -> retType { stmts }`. -/
def mainFunction (params : List Param) (retType : Ty) (stmts : List Stmt) : FunctionDecl where
  name := "main"
  typeParams := []
  params := params
  retType := retType
  body := .block stmts
  isAsync := false
  doc := none
  annotations := []

def mainFile (params : List Param) (retType : Ty) (stmts : List Stmt) : SourceFile :=
  ⟨[.function (mainFunction params retType stmts)]⟩

theorem resolveType_nothing (t : Tables) : resolveType t .nothing = .nothing := by
  simp [resolveType, fromParserType]

theorem accepted_mainFile {retType : Ty} {stmts : List Stmt} {type : ValueType}
    (known : resolveType noTables retType = type)
    (checked : ((checkBody ⟨noTables, [], type, returnsValue type, .block stmts⟩).run
      nothingRegistered.state).2.errors = []) :
    accepted nothingRegistered [] (mainFile [] retType stmts) := by
  subst known
  exact checked

end Tinox.Check
