import Tinox.Check.Types
import Mathlib.Logic.Function.Basic

/-!
# Registration of interfaces

The part of `register_declarations` that fills the interface tables: every
declaration is registered, and then each interface that extends others gets
their methods, in one pass over a hash map.  The orders in which hash maps are
iterated are arguments.  What the checker does behind the tables is a
parameter.
-/

namespace Tinox.Check

open Tinox.Syntax

/-- The methods of an interface, in the order of their declaration. -/
abbrev Methods := List (String × Signature)

/-- The names of methods. -/
def Methods.names (methods : Methods) : List String :=
  methods.map Prod.fst

/-- The errors of the expansion (`TypeError`). -/
inductive TypeError where
  | undefinedInterface (name : String)
  | interfaceMethodConflict (interface parent method : String)
  deriving DecidableEq, Repr

/-- `to_error`. -/
def TypeError.message : TypeError → String
  | .undefinedInterface name => "undefined interface: " ++ name
  | .interfaceMethodConflict interface parent method =>
      "interface '" ++ interface ++ "' extends '" ++ parent ++ "' but both define method '" ++
        method ++ "' with conflicting signatures"

/-- The tables of a `TypeChecker` that concern interfaces. -/
structure Checker where
  interfaces : String → Option Methods
  interfaceExtends : String → Option (List String)
  interfaceImplementations : String → Option (List String)
  functions : String → Option Signature
  errors : List TypeError

namespace Checker

/-- A checker that knows the symbols of functions and classes. -/
def new (functions : String → Option Signature) : Checker where
  interfaces := fun _ => none
  interfaceExtends := fun _ => none
  interfaceImplementations := fun _ => none
  functions := functions
  errors := []

end Checker

/-- `flatten_decls`. -/
def flattenDecls (file : SourceFile) : List Decl :=
  file.decls.flatMap fun
    | .namespace_ _ decls _ => decls
    | decl => [decl]

/-- The table entry of a method. -/
def methodEntry (method : FunctionDecl) : String × Signature :=
  (method.name,
    { params := method.params.map fun param => (param.name, fromParserType param.paramType)
      returnType := fromParserType method.retType })

/-- What the first pass of `register_declarations` does to the tables. -/
def registerDecl (s : Checker) : Decl → Checker
  | .interface iface =>
      let s :=
        { s with
          interfaces :=
            Function.update s.interfaces iface.name (some (iface.methods.map methodEntry)) }
      if iface.extends_.isEmpty then s
      else
        { s with
          interfaceExtends :=
            Function.update s.interfaceExtends iface.name (some iface.extends_) }
  | .trait decl =>
      { s with
        interfaces :=
          Function.update s.interfaces decl.name (some (decl.methods.map methodEntry)) }
  | .class_ decl =>
      { s with
        interfaceImplementations :=
          Function.update s.interfaceImplementations decl.name (some decl.implements) }
  | _ => s

/-- The first pass. -/
def registerAll (functions : String → Option Signature) (file : SourceFile) : Checker :=
  (flattenDecls file).foldl registerDecl (Checker.new functions)

/-- One inherited method: it is compared with the interface's own one, or
added. -/
def inheritMethod (iface : String) (parents : List String) (own : Methods) (s : Checker)
    (inherited : String × Signature) : Checker :=
  match own.find? fun entry => entry.1 == inherited.1 with
  | some entry =>
      if signaturesMatch s.interfaceImplementations entry.2 inherited.2 then s
      else
        let parent := parents.find? fun parent =>
          match s.interfaces parent with
          | some methods => methods.names.contains inherited.1
          | none => false
        { s with
          errors := s.errors ++ [.interfaceMethodConflict iface (parent.getD "") inherited.1] }
  | none =>
      { s with
        interfaces := Function.update s.interfaces iface
          ((s.interfaces iface).map fun methods => methods ++ [inherited]) }

/-- The expansion of one interface. -/
def expandInterface (s : Checker) (iface : String) : Checker :=
  let parents := (s.interfaceExtends iface).getD []
  let undefined := parents.filter fun parent => (s.interfaces parent).isNone
  let inherited := parents.flatMap fun parent => (s.interfaces parent).getD []
  let s := { s with errors := s.errors ++ undefined.map .undefinedInterface }
  match s.interfaces iface with
  | some own => inherited.foldl (inheritMethod iface parents own) s
  | none => s

/-- The symbol of an interface method. -/
def methodSymbol (iface method : String) : String :=
  iface ++ "_" ++ method

/-- The methods of one interface in the symbol table, each with the interface
as its first parameter. -/
def registerMethods (s : Checker) (iface : String) : Checker :=
  ((s.interfaces iface).getD []).foldl
    (fun s entry =>
      { s with
        functions := Function.update s.functions (methodSymbol iface entry.1)
          (some { entry.2 with params := ("self", .named iface []) :: entry.2.params }) }) s

/-- Orders in which the hash maps of a file are iterated: each key comes once. -/
structure Orders (file : SourceFile) where
  extendsOrder : List String
  interfaceOrder : List String
  extends_nodup : extendsOrder.Nodup
  mem_extends : ∀ name, name ∈ extendsOrder ↔
    ((registerAll (fun _ => none) file).interfaceExtends name).isSome
  interface_nodup : interfaceOrder.Nodup
  mem_interface : ∀ name, name ∈ interfaceOrder ↔
    ((registerAll (fun _ => none) file).interfaces name).isSome

/-- `register_declarations`, up to the interface methods in the symbol table. -/
def registerDeclarations (functions : String → Option Signature) (file : SourceFile)
    (orders : Orders file) : Checker :=
  orders.interfaceOrder.foldl registerMethods
    (orders.extendsOrder.foldl expandInterface (registerAll functions file))

/-- The conformance check of `check_class`, without its messages: the class has
every method of the interfaces it names, with compatible types. -/
def conforms (s : Checker) (decl : ClassDecl) : Bool :=
  decl.implements.all fun iface =>
    ((s.interfaces iface).getD []).all fun required =>
      match s.functions (methodSymbol decl.name required.1) with
      | some found =>
          found.params.length - 1 == required.2.params.length &&
            (((found.params.drop 1).zip required.2.params).all fun (a, b) =>
              typesCompatible s.interfaceImplementations a.2 b.2) &&
            typesCompatible s.interfaceImplementations found.returnType required.2.returnType
      | none => false

/-- The other parts of the checker, which read the tables: the third pass, which
adds the methods that classes inherit to the symbol table, and all checks but
the conformance of classes. -/
structure Rest where
  inheritClasses : (String → Option Signature) → String → Option Signature
  accepts : (String → Option Methods) → (String → Option Signature) → Bool

/-- The verdict of the checker: no errors so far, all classes conform, and the
other checks accept the file. -/
def verdict (rest : Rest) (file : SourceFile) (s : Checker) : Bool :=
  let s := { s with functions := rest.inheritClasses s.functions }
  s.errors.isEmpty &&
    ((flattenDecls file).all fun
      | .class_ decl => conforms s decl
      | _ => true) &&
    rest.accepts s.interfaces s.functions

end Tinox.Check
