import Tinox.Check.Types

/-!
# The symbol table of the checker

What the checker knows while it checks bodies: the tables that the declarations
have filled, and the variables, which change from statement to statement.
-/

namespace Tinox.Check

open Tinox.Syntax

/-- `Display` of types, which leaves out the types of elements. -/
def ValueType.toText : ValueType → String
  | .int => "Int64"
  | .float => "Float64"
  | .bool => "Bool"
  | .char => "Char"
  | .string => "String"
  | .nothing => "Nothing"
  | .never => "Never"
  | .any => "Any"
  | .array _ => "Array"
  | .map _ => "Map"
  | .ref => "Ref"
  | .fn => "Fn"
  | .named name _ => name
  | .tuple => "Tuple"
  | .range => "Range"
  | .nullable inner => inner.toText ++ "?"
  | .null => "null"

/-- `display`, for error messages. -/
def ValueType.display : ValueType → String
  | .array elem => if elem == .any then "Array" else "List<" ++ elem.display ++ ">"
  | .map value => if value == .any then "Map" else "Map<String, " ++ value.display ++ ">"
  | .nullable inner => inner.display ++ "?"
  | type => type.toText

/-- The errors in bodies (`TypeError`). -/
inductive BodyError where
  | undefinedVariable (name : String)
  | undefinedFunction (name : String)
  | typeMismatch (expected found : String)
  | binaryOpTypeMismatch (op : BinaryOp) (lhs rhs : String)
  | unaryOpTypeMismatch (op : UnaryOp) (operand : String)
  | invalidArgumentCount (expected found : Nat)
  | invalidFieldAccess (typeName : String)
  | indexNotInteger
  | fieldNotFound (typeName field : String)
  | cannotAssignToImmutable (name : String)
  | breakOutsideLoop
  | continueOutsideLoop
  | throwTypeMismatch (typeName : String)
  | invalidRangeType (text : String)
  | cannotInferType
  | duplicateDefinition (name : String)
  | privateAccess (className member : String)
  | protectedAccess (className member : String)
  | unresolvedStaticPath (name member : String)
  | unknownStaticMethod (className method : String)
  | unknownEnumVariant (enumName variant : String)
  /-- An error with a text of its own. -/
  | other (message : String)
  deriving DecidableEq, Repr

/-- `format!("{:?}", op).to_lowercase()`. -/
def opText : BinaryOp → String
  | .add => "add"
  | .sub => "sub"
  | .mul => "mul"
  | .div => "div"
  | .mod => "mod"
  | .and => "and"
  | .or => "or"
  | .bitAnd => "bitand"
  | .bitOr => "bitor"
  | .xor => "xor"
  | .shl => "shl"
  | .shr => "shr"
  | .shrArith => "shrarith"
  | .eq => "eq"
  | .ne => "ne"
  | .lt => "lt"
  | .le => "le"
  | .gt => "gt"
  | .ge => "ge"

def unaryOpText : UnaryOp → String
  | .neg => "neg"
  | .not => "not"
  | .bitNot => "bitnot"

/-- `to_error`. -/
def BodyError.message : BodyError → String
  | .undefinedVariable name => "undefined variable: " ++ name
  | .undefinedFunction name => "undefined function: " ++ name
  | .typeMismatch expected found => "expected " ++ expected ++ ", found " ++ found
  | .binaryOpTypeMismatch op lhs rhs =>
      "binary op '" ++ opText op ++ "' cannot be applied to " ++ lhs ++ " and " ++ rhs
  | .unaryOpTypeMismatch op operand =>
      "unary op '" ++ unaryOpText op ++ "' cannot be applied to " ++ operand
  | .invalidArgumentCount expected found =>
      "expected " ++ toString expected ++ " arguments, found " ++ toString found
  | .invalidFieldAccess typeName => "cannot access field on type: " ++ typeName
  | .indexNotInteger => "array index must be an integer type"
  | .fieldNotFound typeName field => "type " ++ typeName ++ " has no field '" ++ field ++ "'"
  | .cannotAssignToImmutable name => "cannot assign to immutable variable: " ++ name
  | .breakOutsideLoop => "break statement outside of loop"
  | .continueOutsideLoop => "continue statement outside of loop"
  | .throwTypeMismatch typeName => "throw requires a string or error type, found: " ++ typeName
  | .invalidRangeType text => "range requires integer operands, found: " ++ text
  | .cannotInferType => "cannot infer type"
  | .duplicateDefinition name => "duplicate definition of: " ++ name
  | .privateAccess className member =>
      "'" ++ member ++ "' is private to class '" ++ className ++ "'"
  | .protectedAccess className member =>
      "'" ++ member ++ "' is protected in class '" ++ className ++ "' and not accessible here"
  | .unresolvedStaticPath name member =>
      "unresolved '" ++ name ++ "::" ++ member ++
        "': no type, enum, or static method named '" ++ name ++ "' in scope (missing import?)"
  | .unknownStaticMethod className method =>
      "type '" ++ className ++ "' has no method '" ++ method ++ "'"
  | .unknownEnumVariant enumName variant =>
      "enum '" ++ enumName ++ "' has no variant '" ++ variant ++ "'"
  | .other message => message

/-- The tables of the `TypeChecker` that no body changes. -/
structure Tables where
  functions : String → Option Signature
  enums : String → Option (List String)
  enumVariantPayloads : String → Option (List ValueType)
  interfaceImplementations : String → Option (List String)
  classParents : List (String × String)
  currentClass : Option String
  methodVisibility : String → Option Visibility
  fieldVisibility : String → Option Visibility
  typeParamScope : List String
  knownClassNames : List String
  genericClassNames : List String
  classTypeParams : String → Option (List String)
  methodUsesThis : List String
  /-- The unerased types of the parameters of generic methods, and their type parameters. -/
  genericMethodParamTypes : String → Option (List ValueType × List String)
  classFields : String → Option (List String)
  /-- For each parameter of a function type its place and its own parameters' types. -/
  genericInstanceFnArgHints : String → Option (List (Nat × List ValueType))

/-- A variable's type, and whether it may be assigned. -/
abbrev Entry := ValueType × Bool

/-- The part of the `TypeChecker` that bodies change.  The last entry of a name comes first. -/
structure CheckState where
  variableMap : List (String × Entry)
  inLoop : Bool
  currentReturnType : Option ValueType
  errors : List BodyError

namespace CheckState

/-- `symbols.variables.get`. -/
def lookup (s : CheckState) (name : String) : Option Entry :=
  s.variableMap.lookup name

/-- `symbols.variables.insert`. -/
def insert (s : CheckState) (name : String) (entry : Entry) : CheckState :=
  { s with variableMap := (name, entry) :: s.variableMap }

/-- A variable stays visible, and one that must not be assigned stays so. -/
def Keeps (s s' : CheckState) : Prop :=
  ∀ name type mutable, s.lookup name = some (type, mutable) →
    ∃ type' mutable', s'.lookup name = some (type', mutable') ∧ (mutable' = true → mutable = true)

/-- What every part of a check keeps: reported errors stay, the loop flag and the return
type have their old values, and without an error no variable becomes assignable. -/
structure Grows (s s' : CheckState) : Prop where
  errors : s.errors <+: s'.errors
  inLoop : s'.inLoop = s.inLoop
  returnType : s'.currentReturnType = s.currentReturnType
  keeps : s'.errors = [] → Keeps s s'

theorem Keeps.refl (s : CheckState) : Keeps s s :=
  fun _ type mutable visible => ⟨type, mutable, visible, id⟩

theorem Keeps.trans {s s' s'' : CheckState} (first : Keeps s s') (second : Keeps s' s'') :
    Keeps s s'' := by
  intro name type mutable visible
  rcases first name type mutable visible with ⟨type', mutable', visible', back⟩
  rcases second name type' mutable' visible' with ⟨type'', mutable'', visible'', back'⟩
  exact ⟨type'', mutable'', visible'', back ∘ back'⟩

theorem Keeps.of_eq {s s' : CheckState} (same : s'.variableMap = s.variableMap) : Keeps s s' := by
  intro name type mutable visible
  exact ⟨type, mutable, by rw [lookup, same]; exact visible, id⟩

theorem lookup_insert_self (s : CheckState) (name : String) (entry : Entry) :
    (s.insert name entry).lookup name = some entry :=
  List.lookup_cons_self

theorem lookup_insert_other (s : CheckState) {name other : String} (entry : Entry)
    (different : other ≠ name) : (s.insert name entry).lookup other = s.lookup other := by
  have unequal : (other == name) = false := beq_false_of_ne different
  simp only [lookup, insert, List.lookup_cons, unequal]

/-- A new entry that is immutable, or the first one of its name, makes nothing assignable. -/
theorem Keeps.insert {s s' : CheckState} (keeps : Keeps s s') (name : String) (type : ValueType)
    (mutable : Bool) (harmless : mutable = false ∨ s.lookup name = none) :
    Keeps s (s'.insert name (type, mutable)) := by
  intro other otherType otherMutable visible
  by_cases same : other = name
  · subst same
    rcases harmless with immutable | absent
    · refine ⟨type, mutable, lookup_insert_self _ _ _, ?_⟩
      simp [immutable]
    · simp [absent] at visible
  · rw [lookup_insert_other _ _ same]
    exact keeps other otherType otherMutable visible

theorem Grows.refl (s : CheckState) : Grows s s :=
  ⟨List.prefix_refl _, rfl, rfl, fun _ => Keeps.refl s⟩

theorem Grows.silent {s s' : CheckState} (grows : Grows s s') (silent : s'.errors = []) :
    s.errors = [] :=
  List.prefix_nil.mp (silent ▸ grows.errors)

theorem Grows.trans {s s' s'' : CheckState} (first : Grows s s') (second : Grows s' s'') :
    Grows s s'' :=
  ⟨first.errors.trans second.errors, second.inLoop.trans first.inLoop,
    second.returnType.trans first.returnType,
    fun silent => (first.keeps (second.silent silent)).trans (second.keeps silent)⟩

theorem Grows.report (s : CheckState) (error : BodyError) :
    Grows s { s with errors := s.errors ++ [error] } :=
  ⟨List.prefix_append _ _, rfl, rfl, fun silent => by simp at silent⟩

end CheckState

open CheckState

/-- A part of a check. -/
structure Check (α : Type) where
  run : CheckState → α × CheckState
  grows : ∀ s, Grows s (run s).2

namespace Check

variable {α β : Type}

instance : Monad Check where
  pure a := ⟨fun s => (a, s), Grows.refl⟩
  bind m f := ⟨fun s => (f (m.run s).1).run (m.run s).2,
    fun s => (m.grows s).trans ((f (m.run s).1).grows (m.run s).2)⟩

@[simp]
theorem run_pure (a : α) (s : CheckState) : (pure a : Check α).run s = (a, s) :=
  rfl

@[simp]
theorem run_bind (m : Check α) (f : α → Check β) (s : CheckState) :
    (m >>= f).run s = (f (m.run s).1).run (m.run s).2 :=
  rfl

/-- The state of the checker. -/
def state : Check CheckState :=
  ⟨fun s => (s, s), Grows.refl⟩

@[simp]
theorem run_state (s : CheckState) : state.run s = (s, s) :=
  rfl

end Check

open Check

/-- `self.errors.push`. -/
def report (error : BodyError) : Check Unit :=
  ⟨fun s => ((), { s with errors := s.errors ++ [error] }), fun s => Grows.report s error⟩

/-- Report an error unless a condition holds. -/
def require (condition : Bool) (error : BodyError) : Check Unit :=
  if condition then pure () else report error

/-- A variable that must not be assigned, such as a parameter. -/
def insertVariable (name : String) (type : ValueType) : Check Unit :=
  ⟨fun s => ((), s.insert name (type, false)),
    fun s => ⟨List.prefix_refl _, rfl, rfl, fun _ => (Keeps.refl s).insert name type false (.inl rfl)⟩⟩

/-- A name that `let` or `var` declares must be new where the declaration starts. -/
def startDeclaration (name : String) (s : CheckState) : CheckState :=
  if (s.lookup name).isSome then { s with errors := s.errors ++ [.duplicateDefinition name] }
  else s

theorem startDeclaration_grows (name : String) (s : CheckState) :
    Grows s (startDeclaration name s) := by
  rw [startDeclaration]
  split
  · exact Grows.report s _
  · exact Grows.refl s

theorem lookup_of_startDeclaration {name : String} {s : CheckState}
    (silent : (startDeclaration name s).errors = []) : s.lookup name = none := by
  rw [startDeclaration] at silent
  split at silent
  · simp at silent
  · rename_i absent
    exact Option.not_isSome_iff_eq_none.mp absent

/-- The variable that `let` or `var` declares, behind the check of its type. -/
def finishDeclaration (name : String) (mutable : Bool) (type : Option ValueType)
    (s : CheckState) : CheckState :=
  match type with
  | some type => s.insert name (type, mutable)
  | none => { s with errors := s.errors ++ [.cannotInferType] }

theorem finishDeclaration_grows {s s' : CheckState} (grows : Grows s s') (name : String)
    (mutable : Bool) (type : Option ValueType) (fresh : s'.errors = [] → s.lookup name = none) :
    Grows s (finishDeclaration name mutable type s') := by
  cases type with
  | none => exact grows.trans (Grows.report s' _)
  | some declared =>
      exact ⟨grows.errors, grows.inLoop, grows.returnType, fun silent =>
        (grows.keeps silent).insert name declared mutable (.inr (fresh silent))⟩

/-- A `let` or `var` statement. -/
def declaring (name : String) (mutable : Bool) (type : Check (Option ValueType)) : Check Unit where
  run s :=
    let checked := type.run (startDeclaration name s)
    ((), finishDeclaration name mutable checked.1 checked.2)
  grows s :=
    let checked := type.grows (startDeclaration name s)
    finishDeclaration_grows ((startDeclaration_grows name s).trans checked) name mutable _
      fun silent => lookup_of_startDeclaration (checked.silent silent)

/-- `enter_scope` before and `exit_scope` behind a part of a check. -/
def inScope {α : Type} (body : Check α) : Check α where
  run s := ((body.run s).1, { (body.run s).2 with variableMap := s.variableMap })
  grows s := ⟨(body.grows s).errors, (body.grows s).inLoop, (body.grows s).returnType,
    fun _ => Keeps.of_eq rfl⟩

/-- The body of a loop, behind which `in_loop` has its old value. -/
def insideLoop {α : Type} (body : Check α) : Check α where
  run s :=
    let checked := body.run { s with inLoop := true }
    (checked.1, { checked.2 with inLoop := s.inLoop })
  grows s :=
    let grows := body.grows { s with inLoop := true }
    ⟨grows.errors, rfl, grows.returnType, grows.keeps⟩

/-- A body with a return type of its own. -/
def returning {α : Type} (type : Option ValueType) (body : Check α) : Check α where
  run s :=
    let checked := body.run { s with currentReturnType := type }
    (checked.1, { checked.2 with currentReturnType := s.currentReturnType })
  grows s :=
    let grows := body.grows { s with currentReturnType := type }
    ⟨grows.errors, grows.inLoop, rfl, grows.keeps⟩

/-- `literal_type`. -/
def literalType : Literal → ValueType
  | .integer _ => .int
  | .float _ => .float
  | .string _ => .string
  | .char _ => .char
  | .byte _ => .int
  | .bool _ => .bool
  | .null => .null

/-- `is_nullable_ref`. -/
def isNullableRef : ValueType → Bool
  | .array _ | .map _ | .named _ _ | .string | .nullable _ | .null | .fn | .ref => true
  | _ => false

/-- `Any` and named types, which meet all checks of operators and conditions. -/
def isWildcard : ValueType → Bool
  | .any | .named _ _ => true
  | _ => false

def isNumber : ValueType → Bool
  | .int | .float => true
  | _ => false

/-- The operands that an operator takes. -/
def binaryOpValid (op : BinaryOp) (lhs rhs : ValueType) : Bool :=
  match op with
  | .add => (isNumber lhs && isNumber rhs) || (lhs == .string && rhs == .string)
  | .sub | .mul | .div | .mod | .shl | .shr | .shrArith => isNumber lhs && isNumber rhs
  | .and | .or => lhs == .bool && rhs == .bool
  | .bitAnd | .bitOr | .xor => lhs == .int && rhs == .int
  | .eq | .ne =>
      lhs == rhs || (lhs == .null && isNullableRef rhs) || (rhs == .null && isNullableRef lhs)
  | .lt | .le | .gt | .ge => (isNumber lhs && isNumber rhs) || (lhs == .string && rhs == .string)

/-- `check_binary_op`. -/
def checkBinaryOp (op : BinaryOp) (lhs rhs : ValueType) : Check Unit :=
  require (isWildcard lhs || isWildcard rhs || binaryOpValid op lhs rhs)
    (.binaryOpTypeMismatch op lhs.toText rhs.toText)

/-- `check_unary_op`. -/
def checkUnaryOp (op : UnaryOp) (operand : ValueType) : Check Unit :=
  require (isWildcard operand ||
      match op with
      | .neg => isNumber operand
      | .not => operand == .bool
      | .bitNot => operand == .int)
    (.unaryOpTypeMismatch op operand.toText)

/-- `binary_result_type`. -/
def binaryResultType (op : BinaryOp) (lhs rhs : ValueType) : ValueType :=
  match op with
  | .eq | .ne | .lt | .le | .gt | .ge | .and | .or => .bool
  | op =>
      if op = .add ∧ (lhs == .string || rhs == .string) then .string
      else if isWildcard lhs || isWildcard rhs then .any
      else if lhs == .float || rhs == .float then .float
      else .int

/-- `unary_result_type`. -/
def unaryResultType (op : UnaryOp) (operand : ValueType) : ValueType :=
  match op with
  | .neg => operand
  | .not => .bool
  | .bitNot => .int

/-- `lub`. -/
def lub : ValueType → ValueType → ValueType
  | .array a, .array b => if ValueType.array a == .array b then .array a else .array (lub a b)
  | .map a, .map b => if ValueType.map a == .map b then .map a else .map (lub a b)
  | a, b =>
      if a == b then a
      else match a, b with
        | .int, .float | .float, .int => .float
        | _, _ => .any

/-- The check of a condition. -/
def checkCondition (type : ValueType) : Check Unit :=
  require (type == .bool || isWildcard type) (.typeMismatch "Bool" type.display)

mutual

/-- `contains_type_param`, and `contains_scoped_type_param` for the parameters in scope. -/
def containsTypeParam (params : List String) : ValueType → Bool
  | .named name args => params.contains name || containsTypeParams params args
  | .array inner | .map inner | .nullable inner => containsTypeParam params inner
  | _ => false

def containsTypeParams (params : List String) : List ValueType → Bool
  | [] => false
  | arg :: args => containsTypeParam params arg || containsTypeParams params args

end

/-- What type parameters stand for. -/
abbrev Bindings := List (String × ValueType)

mutual

/-- `substitute_bindings`. -/
def substituteBindings (bindings : Bindings) : ValueType → ValueType
  | .named name args =>
      match bindings.lookup name with
      | some bound => bound
      | none => .named name (substituteAll bindings args)
  | .array inner => .array (substituteBindings bindings inner)
  | .map value => .map (substituteBindings bindings value)
  | .nullable inner => .nullable (substituteBindings bindings inner)
  | type => type

def substituteAll (bindings : Bindings) : List ValueType → List ValueType
  | [] => []
  | arg :: args => substituteBindings bindings arg :: substituteAll bindings args

end

mutual

/-- `unify_param`: the first binding of a type parameter wins. -/
def unifyParam (params : List String) (bindings : Bindings) : ValueType → ValueType → Bindings
  | .named name args, arg =>
      if params.contains name then
        if arg == .any || (bindings.lookup name).isSome then bindings
        else (name, arg) :: bindings
      else
        match arg with
        | .named other otherArgs =>
            if name = other then unifyAll params bindings args otherArgs else bindings
        | _ => bindings
  | .array param, .array arg => unifyParam params bindings param arg
  | .map param, .map arg => unifyParam params bindings param arg
  | .nullable param, .nullable arg => unifyParam params bindings param arg
  | .nullable param, arg => unifyParam params bindings param arg
  | _, _ => bindings

def unifyAll (params : List String) (bindings : Bindings) :
    List ValueType → List ValueType → Bindings
  | param :: rest, arg :: args => unifyAll params (unifyParam params bindings param arg) rest args
  | _, _ => bindings

end

/-- `substitute_type_params`. -/
def substituteTypeParams (t : Tables) (className : String) (args : List ValueType)
    (type : ValueType) : ValueType :=
  if args.isEmpty then type
  else
    match t.classTypeParams className with
    | none => type
    | some params => go params type
where
  go (params : List String) : ValueType → ValueType
    | .named name own =>
        match params.idxOf? name with
        | some index => (args[index]?).getD (.named name own)
        | none => .named name own
    | .array inner => .array (go params inner)
    | .map value => .map (go params value)
    | .nullable inner => .nullable (go params inner)
    | type => type

/-- The end of `unify_generic_return`: the return type of a generic method for the types of
its arguments, if all type parameters are known. -/
def genericReturn (t : Tables) (params : List ValueType) (typeParams : List String)
    (returnType : ValueType) (argTypes : List ValueType) (explicit : List Ty) : Option ValueType :=
  let aligned :=
    if argTypes.length = params.length then some params
    else if argTypes.length + 1 = params.length then some params.tail
    else none
  let bindings := (typeParams.zip (explicit.map fromParserType)).reverse
  let bindings := match aligned with
    | some params => unifyAll typeParams bindings params argTypes
    | none => bindings
  let resolved := substituteBindings bindings returnType
  if !containsTypeParam typeParams resolved && !containsTypeParam t.typeParamScope resolved then
    some resolved
  else none

/-- The walk of `is_subclass_or_equal` through the parents of a class.  One that meets more
classes than there are never ends; it answers `false`, which no accepted program gets. -/
def extendsWithin (classParents : List (String × String)) (base : String) : Nat → String → Bool
  | 0, _ => false
  | bound + 1, current =>
      match classParents.lookup current with
      | some parent => parent = base || extendsWithin classParents base bound parent
      | none => false

/-- `is_subclass_or_equal`. -/
def isSubclassOrEqual (t : Tables) (candidate base : String) : Bool :=
  candidate = base || extendsWithin t.classParents base (t.classParents.length + 1) candidate

/-- Whether a member of a class may be used in the current class. -/
def visible (t : Tables) (className : String) : Visibility → Bool
  | .pub | .package => true
  | .priv => t.currentClass == some className
  | .prot => t.currentClass.any fun current => isSubclassOrEqual t current className

/-- `check_member_visibility`. -/
def checkMemberVisibility (t : Tables) (className member : String) (visibility : Visibility) :
    Check Unit :=
  require (visible t className visibility)
    (match visibility with
      | .prot => .protectedAccess className member
      | _ => .privateAccess className member)

end Tinox.Check
