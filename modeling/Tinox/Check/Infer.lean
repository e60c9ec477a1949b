import Tinox.Check.Symbols

/-!
# Checking bodies

`check_stmt` and `infer_type` walk over a body and change the symbol table on
the way.  The type of a node is recorded when it is inferred first, and asking
for it again has no effect; where the source does, the types that are known are
passed along here.
-/

namespace Tinox.Check

open Tinox.Syntax Check

/-- The types that a variant carries, where the scrutinee's type is known. -/
def variantPayloads (t : Tables) (scrutinee : ValueType) (variant : Ident) : List ValueType :=
  match scrutinee with
  | .named name _ => (t.enumVariantPayloads (name ++ "::" ++ variant)).getD []
  | _ => []

/-- `bind_pattern_vars`. -/
def bindPatternVars (t : Tables) (scrutinee : ValueType) : Pattern → Check Unit
  | .ident name sub => do
      insertVariable name scrutinee
      match sub with
      | some inner => bindPatternVars t scrutinee inner
      | none => pure ()
  | .enumVariant enumName variant args =>
      bindAll (variantPayloads t scrutinee (if variant = "" then enumName else variant)) args
  | .tuple patterns => bindAll [] patterns
  | .wildcard | .literal _ => pure ()
where
  /-- Patterns with their types, as far as these are known. -/
  bindAll : List ValueType → List Pattern → Check Unit
    | types, pattern :: patterns => do
        bindPatternVars t (types.headD .any) pattern
        bindAll types.tail patterns
    | _, [] => pure ()

/-- The parameters of a lambda, with hints for those that have no type. -/
def bindParams : List ValueType → List Param → Check Unit
  | hints, param :: params => do
      let declared := fromParserType param.paramType
      insertVariable param.name (if declared == .any then hints.headD .any else declared)
      bindParams hints.tail params
  | _, [] => pure ()

/-- The functions that take any number of arguments. -/
def isVariadic (name : String) : Bool :=
  ["print", "println", "open", "now", "sleep", "fromCharCode", "charCodeAt", "sha256Hash",
    "md5Hash", "sha1Hash", "wsAcceptKey", "hmacSha256Hash", "aesEncryptRaw", "aesDecryptRaw",
    "base64Encode", "base64Decode", "base64EncodeChar", "gcCollect", "memoryUsage",
    "printStackTrace", "processExit", "sinf", "cosf", "tanf", "logf", "log10f", "sqrtf", "expf",
    "powf", "fabsf", "floorf", "ceilf"].contains name ||
  ["http", "Http", "socket", "Socket", "env", "Env", "regex", "Regex", "zip", "xml", "uri", "uuid",
    "random", "process", "dir", "file", "Pool_", "Heap_", "String_"].any
      fun start => start.toList.isPrefixOf name.toList

/-- The first parameter is the receiver. -/
def takesSelf (signature : Signature) : Bool :=
  match signature.params with
  | ("self", _) :: _ => true
  | _ => false

def checkArgument (t : Tables) (expected found : ValueType) : Check Unit :=
  require (typesCompatible t.interfaceImplementations expected found)
    (.typeMismatch expected.display found.display)

/-- The class and method that a call on a class name reaches. -/
inductive StaticTarget where
  /-- The arguments are checked against the signature without its receiver. -/
  | direct (signature : Signature)
  /-- The call is checked as one of the function of this name. -/
  | named (key : String)
  | none

/-- The receiver of a method call as the name of a class. -/
def staticTarget (t : Tables) (s : CheckState) (obj : Expr) (method : Ident) : StaticTarget :=
  match obj with
  | .ident className =>
      let key := className ++ "_" ++ method
      match t.functions key with
      | some signature =>
          if (s.lookup className).isNone then .direct signature
          else if takesSelf signature then .none
          else .named key
      | none => .none
  | _ => .none

/-- The lambdas among the arguments of a method call that are inferred first, with the types
of their parameters. -/
def lambdaHints (t : Tables) (objType : ValueType) (acc : Option ValueType) (method : Ident)
    (methodName : String) : Nat → Option (List ValueType) :=
  match objType with
  | .array elem => fun index =>
      if (method = "map" ∨ method = "filter" ∨ method = "forEach") ∧ index = 0 then some [elem]
      else if method = "reduce" ∧ index = 1 then some [acc.getD .any, elem]
      else none
  | .named className args => fun index =>
      match t.genericInstanceFnArgHints methodName with
      | some entries =>
          (entries.lookup index).map fun raw => raw.map (substituteTypeParams t className args)
      | none => none
  | _ => fun _ => none

/-- The result of a method call where it depends on the receiver. -/
def refineResult (objType : ValueType) (method : Ident) (lambdaType : Option ValueType)
    (first : Option ValueType) (result : ValueType) : ValueType :=
  match objType with
  | .map value =>
      if method = "get" then value
      else if method = "values" then .array value
      else result
  | .array elem =>
      if ["first", "last", "find", "max", "min"].contains method && !(elem == .any) then elem
      else if ["pop", "sort", "reverse", "slice", "unique", "take", "skip", "toList"].contains
          method && !(elem == .any) then .array elem
      else if method = "map" then
        .array (match lambdaType with
          | some .nothing | some .never | none => .any
          | some type => type)
      else if method = "filter" then .array elem
      else if method = "forEach" then .nothing
      else if method = "reduce" then
        match first with
        | some .any | none => elem
        | some type => type
      else result
  | _ => result

/-- The check of a field against the visibility table. -/
def checkFieldVisibility (t : Tables) (className field : String) : Check Unit :=
  match t.fieldVisibility (className ++ "." ++ field) with
  | some visibility => checkMemberVisibility t className field visibility
  | none => pure ()

/-- The check of a method against the visibility table. -/
def checkMethodVisibility (t : Tables) (className method : String) : Check Unit :=
  match t.methodVisibility (className ++ "_" ++ method) with
  | some visibility => checkMemberVisibility t className method visibility
  | none => pure ()

/-- The type of a field access. -/
def fieldType (t : Tables) (objType : ValueType) (field : Ident) : Check ValueType := do
  match objType with
  | .named name args =>
      checkFieldVisibility t name field
      let s ← state
      match s.lookup (name ++ "." ++ field) with
      | some (type, _) => pure (substituteTypeParams t name args type)
      | none =>
          let hasAnyField := s.variableMap.any fun entry =>
            (name ++ ".").toList.isPrefixOf entry.1.toList
          require (!(hasAnyField ||
              (t.knownClassNames.contains name && !t.genericClassNames.contains name)))
            (.fieldNotFound name field)
          pure .any
  | .any => pure .any
  | type => do
      report (.invalidFieldAccess type.toText)
      pure .any

/-- The fields that a struct literal leaves out or makes up. -/
def checkFields (t : Tables) (name : Ident) (given : List Ident) : Check Unit := do
  if t.genericClassNames.contains name then pure ()
  else
    match t.classFields name with
    | none => pure ()
    | some allFields =>
        let missing := allFields.filter fun field => !given.contains field
        require missing.isEmpty
          (.other ("struct literal for '" ++ name ++ "' is missing field(s): " ++
            ", ".intercalate missing))
        (given.filter fun field => !allFields.contains field).forM fun field =>
          report (.fieldNotFound name field)

/-- The type of a static path that is no method. -/
def staticPathType (t : Tables) (enumName variant : Ident) : Check ValueType := do
  let isKnownEnum := (t.enums enumName).isSome
  let isKnownClass := t.knownClassNames.contains enumName
  let isTypeParam := t.typeParamScope.contains enumName
  if !isKnownEnum && !isKnownClass && !isTypeParam then do
    report (.unresolvedStaticPath enumName variant)
    pure .any
  else if isKnownClass && !t.genericClassNames.contains enumName && !isTypeParam then do
    report (.unknownStaticMethod enumName variant)
    pure .any
  else if !isKnownEnum && (isKnownClass || isTypeParam) then pure .any
  else do
    require (((t.enums enumName).getD []).contains variant) (.unknownEnumVariant enumName variant)
    pure (.named enumName [])

/-- The number of arguments of a call `Class::method(…)`. -/
def checkStaticCount (t : Tables) (key : String) (signature : Signature) (found : Nat) :
    Check Unit :=
  let isInstance := takesSelf signature
  let declared := if isInstance then signature.params.length - 1 else signature.params.length
  let usesThis := isInstance && t.methodUsesThis.contains key
  let countOk :=
    if !isInstance then found = declared
    else if usesThis then found = declared + 1
    else found = declared ∨ found = declared + 1
  require countOk (.invalidArgumentCount (if usesThis then declared + 1 else declared) found)

/-- The type of an index access. -/
def indexType (objType indexType : ValueType) : Check ValueType := do
  let validIndex := match objType with
    | .map _ => indexType == .string || indexType == .any
    | .string | .any => true
    | _ => indexType == .int || indexType == .any
  require validIndex .indexNotInteger
  pure (match objType with
    | .string => .string
    | .array elem => elem
    | .map value => value
    | _ => .any)

/-- The element type of a channel. -/
def receivedType : ValueType → ValueType
  | .named name [elem] => if name = "Channel" then elem else .int
  | _ => .int

/-- The variable of a loop over a container. -/
def loopVarType : ValueType → ValueType
  | .range => .int
  | .array elem => elem
  | type => type

/-- The type of a declared variable: the written one, which its value must meet. -/
def declaredType (t : Tables) (type : Option Ty) (value : Option ValueType) :
    Check (Option ValueType) := do
  match value, type with
  | some valueType, some annotated => do
      checkArgument t (fromParserType annotated) valueType
      pure (some (fromParserType annotated))
  | some valueType, none => pure (some valueType)
  | none, some annotated => pure (some (fromParserType annotated))
  | none, none => pure none

/-- A returned value against the return type, if there are both. -/
def checkReturned (t : Tables) (expected found : Option ValueType) : Check Unit :=
  match expected, found with
  | some expected, some found => checkArgument t expected found
  | _, _ => pure ()

/-- The function that is called by its name. -/
def calledName : Expr → Option Ident
  | .ident name => some name
  | _ => none

/-- The target of an assignment must not be an immutable variable. -/
def checkTarget (target : Expr) : Check Unit := do
  match calledName target with
  | some name =>
      match (← state).lookup name with
      | some (_, false) => report (.cannotAssignToImmutable name)
      | _ => pure ()
  | none => pure ()

/-- The method of the parent class that a `super` call reaches. -/
def superTarget (t : Tables) (method : Ident) : Except String Signature :=
  match t.currentClass with
  | none => .error "super call is only valid inside a class method"
  | some current =>
      match t.classParents.lookup current with
      | none => .error ("class " ++ current ++ " has no parent class for super call")
      | some parent =>
          match t.functions (parent ++ "_" ++ method) with
          | none => .error ("parent class " ++ parent ++ " has no method '" ++ method ++ "'")
          | some signature => .ok signature

/-- The accumulator of a `reduce` is inferred before its lambda. -/
def reduces (objType : ValueType) (method : Ident) (args : List Expr) : Bool :=
  match objType with
  | .array _ => method = "reduce" ∧ 2 ≤ args.length
  | _ => false

/-- `join` takes lists of strings. -/
def joins (name : Ident) : Bool :=
  name = "join" ∨ name = "Array_join"

/-- The check of the list that `join` takes. -/
def checkJoin : Option ValueType → Check Unit
  | some (.array elem) =>
      require (elem == .string || elem == .any)
        (.typeMismatch "List<String>" ("List<" ++ elem.display ++ ">"))
  | _ => pure ()

/-- `unify_generic_return` for the types of all arguments. -/
def unifyGenericReturn (t : Tables) (key : String) (returnType : ValueType)
    (argTypes : List ValueType) (explicit : List Ty) : Option ValueType :=
  match t.genericMethodParamTypes key with
  | none => none
  | some (params, typeParams) =>
      if containsTypeParam typeParams returnType then
        genericReturn t params typeParams returnType argTypes explicit
      else none

/-- The static method of the current class that a bare call reaches. -/
def siblingMethod (t : Tables) (name : Ident) : Option (String × Signature) :=
  match t.currentClass with
  | none => none
  | some current =>
      match t.functions (current ++ "_" ++ name) with
      | none => none
      | some signature =>
          if takesSelf signature then none else some (current ++ "_" ++ name, signature)

/-- How the arguments of a call are inferred, where the types of some are known. -/
structure ArgWalk where
  count : Nat
  /-- `infer_type` of all arguments. -/
  all : List (Option ValueType) → Check (List ValueType)
  /-- The check against parameters, as far as there are both. -/
  against : List ValueType → List (Option ValueType) → Check (List (Option ValueType))
  /-- `infer_type` of the first argument, if there is one. -/
  first : Check (Option ValueType)

/-- A variable, or a field by its key, that can be called. -/
def isFnVariable (s : CheckState) (name : String) : Bool :=
  match s.lookup name with
  | some (.fn, _) => true
  | _ => false

/-- The list that `join` takes is inferred before the other arguments. -/
def inferJoined (name : Ident) (receiver : Option ValueType) (args : ArgWalk) :
    Check (Option ValueType) :=
  if joins name && receiver.isNone then args.first else pure none

def checkJoined (name : Ident) (list : Option ValueType) : Check Unit :=
  if joins name then checkJoin list else pure ()

/-- A first argument whose type is known. -/
def knowFirst (first : Option ValueType) (known : List (Option ValueType)) :
    List (Option ValueType) :=
  if first.isSome then first :: known.tail else known

/-- The receiver of a method call against the first parameter. -/
def checkReceiver (t : Tables) (receiver : Option ValueType) (params : List ValueType) :
    Check Unit :=
  match receiver, params with
  | some type, expected :: _ => checkArgument t expected type
  | _, _ => pure ()

/-- The types of all arguments, which are known behind the call. -/
def inferAll (result : ValueType) (known : List (Option ValueType)) (args : ArgWalk) :
    Check (ValueType × List (Option ValueType)) := do
  let types ← args.all known
  pure (result, types.map some)

/-- The part of `check_call` for a function of the table. -/
def checkFunctionCall (t : Tables) (name : Ident) (signature : Signature)
    (receiver : Option ValueType) (known : List (Option ValueType)) (args : ArgWalk) :
    Check (ValueType × List (Option ValueType)) := do
  let first ← inferJoined name receiver args
  checkJoined name (receiver <|> first)
  let found := receiver.toList.length + args.count
  require (isVariadic name || signature.params.length = found)
    (.invalidArgumentCount signature.params.length found)
  if isVariadic name then inferAll signature.returnType (knowFirst first known) args
  else do
    let params := signature.params.map Prod.snd
    checkReceiver t receiver params
    let known ← args.against (params.drop receiver.toList.length) (knowFirst first known)
    pure (signature.returnType, known)

/-- The part of `check_call` for a static method of the current class. -/
def checkSiblingCall (t : Tables) (key : String) (signature : Signature)
    (receiver : Option ValueType) (known : List (Option ValueType)) (args : ArgWalk) :
    Check (ValueType × List (Option ValueType)) := do
  let types ← args.all known
  checkStaticCount t key signature (receiver.toList.length + args.count)
  pure ((unifyGenericReturn t key signature.returnType (receiver.toList ++ types) []).getD
    signature.returnType, types.map some)

/-- `check_call` of a named function; the receiver of a method call is the first argument.
The types of the arguments are known behind the call. -/
def checkCall (t : Tables) (name : Ident) (receiver : Option ValueType)
    (known : List (Option ValueType)) (args : ArgWalk) :
    Check (ValueType × List (Option ValueType)) := do
  match t.functions name with
  | some signature => checkFunctionCall t name signature receiver known args
  | none => do
      if isFnVariable (← state) name then inferAll .any known args
      else
        match siblingMethod t name with
        | some (key, signature) => checkSiblingCall t key signature receiver known args
        | none => do
            report (.undefinedFunction name)
            inferAll .any known args

/-- A node whose type is known is not inferred again. -/
def orInfer (known : Option ValueType) (infer : Check ValueType) : Check ValueType :=
  match known with
  | some type => pure type
  | none => infer

/-- `check_class_method_call` of a static path. -/
def checkClassMethodCall (t : Tables) (key : String) (signature : Signature) (args : ArgWalk)
    (typeArgs : List Ty) : Check ValueType := do
  let types ← args.all []
  checkStaticCount t key signature args.count
  pure ((unifyGenericReturn t key signature.returnType types typeArgs).getD signature.returnType)

/-- The return type of a generic method that is called on a receiver. -/
def checkGenericReturn (t : Tables) (key : String) (receiver result : ValueType)
    (known : List (Option ValueType)) (args : ArgWalk) : Check ValueType := do
  match t.functions key, t.genericMethodParamTypes key with
  | some signature, some (_, typeParams) =>
      if containsTypeParam typeParams signature.returnType then do
        let types ← args.all known
        pure ((unifyGenericReturn t key signature.returnType (receiver :: types) []).getD result)
      else pure result
  | _, _ => pure result

/-- A call `Class.method(…)`, which is checked against the parameters behind the receiver. -/
def checkDirect (t : Tables) (signature : Signature) (args : ArgWalk) : Check ValueType := do
  let params := if takesSelf signature then signature.params.tail else signature.params
  require (params.length = args.count) (.invalidArgumentCount params.length args.count)
  let _ ← args.against (params.map Prod.snd) []
  pure signature.returnType

/-- The accumulator of a `reduce`. -/
def inferAccumulator (isReduce : Bool) (args : ArgWalk) : Check (Option ValueType) :=
  if isReduce then args.first else pure none

/-- A method call on a value, where the lambdas among the arguments are inferred first. -/
def checkMethodCall (t : Tables) (objType : ValueType) (method : Ident) (args : ArgWalk)
    (isReduce : Bool)
    (lambdas : (Nat → Option (List ValueType)) →
      Check (List (Option ValueType) × Option ValueType)) : Check ValueType := do
  let className := objType.toText
  if objType == .any || isFnVariable (← state) (className ++ "." ++ method) then do
    let _ ← args.all []
    pure .any
  else do
    let methodName := className ++ "_" ++ method
    checkMethodVisibility t className method
    let acc ← inferAccumulator isReduce args
    let (known, lambdaType) ← lambdas (lambdaHints t objType acc method methodName)
    let (result, known) ← checkCall t methodName (some objType) (knowFirst acc known) args
    let result ← checkGenericReturn t methodName objType result known args
    pure (refineResult objType method lambdaType (known.headD none) result)

/-- `super.method(…)`. -/
def checkSuperCall (t : Tables) (method : Ident) (args : ArgWalk) : Check ValueType := do
  match superTarget t method with
  | .error message => do
      report (.other message)
      let _ ← args.all []
      pure .any
  | .ok signature => do
      let params := signature.params.tail
      require (args.count = params.length) (.invalidArgumentCount params.length args.count)
      let _ ← args.against (params.map Prod.snd) []
      pure signature.returnType

mutual

/-- `infer_type`. -/
def inferType (t : Tables) : Expr → Check ValueType
  | .literal value => pure (literalType value)
  | .ident name => do
      match (← state).lookup name with
      | some (type, _) => pure type
      | none =>
          if (t.functions name).isSome then pure .fn
          else if t.knownClassNames.contains name then pure .any
          else do
            report (.undefinedVariable name)
            pure .any
  | .binary op lhs rhs => do
      let lhsType ← inferType t lhs
      let rhsType ← inferType t rhs
      checkBinaryOp op lhsType rhsType
      pure (binaryResultType op lhsType rhsType)
  | .unary op operand => do
      let operandType ← inferType t operand
      checkUnaryOp op operandType
      pure (unaryResultType op operandType)
  | .call func args => do
      let walk : ArgWalk := ⟨args.length, fun known => inferArgs t known args,
        fun params known => inferAgainst t params known args, inferFirst t args⟩
      match calledName func with
      | some name => do
          let (type, _) ← checkCall t name none [] walk
          pure type
      | none => do
          -- a value that is no function is called with unchecked arguments as well
          let _ ← inferType t func
          let _ ← walk.all []
          pure .any
  | .methodCall obj method args => do
      let walk : ArgWalk := ⟨args.length, fun known => inferArgs t known args,
        fun params known => inferAgainst t params known args, inferFirst t args⟩
      match staticTarget t (← state) obj method with
      | .direct signature => checkDirect t signature walk
      | .named key => do
          let (type, _) ← checkCall t key none [] walk
          pure type
      | .none => do
          let objType ← inferType t obj
          checkMethodCall t objType method walk (reduces objType method args)
            fun hints => inferLambdas t hints 0 args
  | .index obj index => do
      let objType ← inferType t obj
      let indexType' ← inferType t index
      indexType objType indexType'
  | .fieldAccess obj field => do
      let objType ← inferType t obj
      fieldType t objType field
  | .this => do
      match (← state).lookup "self" with
      | some (type, _) => pure type
      | none => pure (.named "Self" [])
  | .superCall method args =>
      checkSuperCall t method ⟨args.length, fun known => inferArgs t known args,
        fun params known => inferAgainst t params known args, inferFirst t args⟩
  | .new className _ args => do
      let _ ← inferArgs t [] args
      pure (.named className [])
  | .structLiteral name fields => do
      let params := t.classTypeParams name
      let bindings ← inferFields t name (params.getD []) [] fields
      checkFields t name (fields.map Prod.fst)
      let bound := (params.getD []).filterMap fun param => bindings.lookup param
      let known := !(params.getD []).isEmpty && bound.length = (params.getD []).length &&
        !bindings.any fun binding => containsTypeParam t.typeParamScope binding.2
      pure (.named name (if known then bound else []))
  | .block stmts => inScope (checkBlock t stmts)
  | .ifExpr cond thenBranch elseBranch => do
      let condType ← inferType t cond
      checkCondition condType
      let thenType ← inferType t thenBranch
      match elseBranch with
      | some elseBranch => do
          let elseType ← inferType t elseBranch
          pure (lub thenType elseType)
      | none => pure .nothing
  | .whileExpr cond body => do
      let condType ← inferType t cond
      checkCondition condType
      let _ ← inferType t body
      pure .nothing
  | .forExpr var iter body => do
      let iterType ← inferType t iter
      insertVariable var iterType
      let _ ← inferType t body
      pure .nothing
  | .loopExpr body => do
      let _ ← inferType t body
      pure .never
  | .matchExpr expr cases => do
      let scrutinee ← inferType t expr
      let types ← inferCases t scrutinee cases
      match types with
      | [] => pure .any
      | type :: types => pure (types.foldl lub type)
  | .returnExpr value => do
      let _ ← inferOption t value
      pure .never
  | .breakExpr => pure .never
  | .continueExpr => pure .never
  | .throwExpr value => do
      let _ ← inferType t value
      pure .never
  | .tryExpr body catches finally_ => do
      let _ ← inferType t body
      checkCatchBodies t catches
      let _ ← inferOption t finally_
      pure .any
  | .assign target value => do
      let _ ← inferType t target
      inferType t value
  | .compoundAssign _ target value => do
      let _ ← inferType t target
      inferType t value
  | .lambda params retType body => do
      inScope (do
        bindParams [] params
        let _ ← returning (retType.map fromParserType) (inferType t body))
      pure .fn
  | .spawn expr => do
      let _ ← inferType t expr
      pure .int
  | .await expr => do
      let _ ← inferType t expr
      pure .int
  | .channel => pure .int
  | .send channel value => do
      let _ ← inferType t channel
      let _ ← inferType t value
      pure .nothing
  | .recv channel => do
      let channelType ← inferType t channel
      pure (receivedType channelType)
  | .cast expr type => do
      let _ ← inferType t expr
      pure (fromParserType type)
  | .is expr _ => do
      let _ ← inferType t expr
      pure .bool
  | .range start stop _ => do
      let startType ← inferType t start
      let stopType ← inferType t stop
      require (startType == .int && stopType == .int)
        (.invalidRangeType (startType.toText ++ ".." ++ stopType.toText))
      pure .range
  | .tuple elems => do
      let _ ← inferArgs t [] elems
      pure .tuple
  | .tupleIndex tuple _ => do
      let _ ← inferType t tuple
      pure .any
  | .enumValue enumName variant typeArgs args => do
      let key := enumName ++ "_" ++ variant
      match t.functions key with
      | some signature =>
          checkClassMethodCall t key signature ⟨args.length, fun known => inferArgs t known args,
            fun params known => inferAgainst t params known args, inferFirst t args⟩ typeArgs
      | none => do
          let _ ← inferArgs t [] args
          staticPathType t enumName variant
  | .arrayLiteral elems => do
      let types ← inferArgs t [] elems
      match types with
      | [] => pure (.array .any)
      | type :: types => pure (.array (types.foldl lub type))
  | .mapLiteral entries => do
      let types ← inferEntries t entries
      match types with
      | [] => pure (.map .any)
      | type :: types => pure (.map (types.foldl lub type))

/-- `infer_type` of arguments, some of whose types may be known. -/
def inferArgs (t : Tables) : List (Option ValueType) → List Expr → Check (List ValueType)
  | _, [] => pure []
  | known, arg :: args => do
      let type ← orInfer (known.headD none) (inferType t arg)
      let types ← inferArgs t known.tail args
      pure (type :: types)

/-- The check of arguments against parameters, as far as there are both. -/
def inferAgainst (t : Tables) :
    List ValueType → List (Option ValueType) → List Expr → Check (List (Option ValueType))
  | _, _, [] => pure []
  | [], known, _ :: _ => pure known
  | expected :: params, known, arg :: args => do
      let type ← orInfer (known.headD none) (inferType t arg)
      checkArgument t expected type
      let types ← inferAgainst t params known.tail args
      pure (some type :: types)

/-- The first argument, where it is inferred before the others. -/
def inferFirst (t : Tables) : List Expr → Check (Option ValueType)
  | arg :: _ => do
      let type ← inferType t arg
      pure (some type)
  | [] => pure none

/-- The lambdas for whose parameters there are hints, with the type of the first one. -/
def inferLambdas (t : Tables) (hints : Nat → Option (List ValueType)) :
    Nat → List Expr → Check (List (Option ValueType) × Option ValueType)
  | _, [] => pure ([], none)
  | index, arg :: args => do
      let type ← inferLambda t (hints index) arg
      let (known, later) ← inferLambdas t hints (index + 1) args
      pure ((type.map fun _ => .fn) :: known, type <|> later)

/-- `infer_lambda_with_param_hints`. -/
def inferLambda (t : Tables) (hints : Option (List ValueType)) : Expr → Check (Option ValueType)
  | .lambda params retType body =>
      match hints with
      | none => pure none
      | some hints => do
          let bodyType ← inScope (do
            bindParams hints params
            returning (retType.map fromParserType) (inferType t body))
          pure (some ((retType.map fromParserType).getD bodyType))
  | _ => pure none

/-- The fields of a struct literal, and what they tell about type parameters. -/
def inferFields (t : Tables) (name : Ident) (params : List String) :
    Bindings → List (Ident × Expr) → Check Bindings
  | bindings, [] => pure bindings
  | bindings, (field, value) :: fields => do
      let type ← inferType t value
      let bindings := match (← state).lookup (name ++ "." ++ field) with
        | some (declared, _) => unifyParam params bindings declared type
        | none => bindings
      inferFields t name params bindings fields

/-- The entries of a map literal, with the types of their values. -/
def inferEntries (t : Tables) : List (Expr × Expr) → Check (List ValueType)
  | [] => pure []
  | (key, value) :: entries => do
      let _ ← inferType t key
      let type ← inferType t value
      let types ← inferEntries t entries
      pure (type :: types)

/-- The arms of a match.  Guards are not looked at. -/
def inferCases (t : Tables) (scrutinee : ValueType) : List MatchCase → Check (List ValueType)
  | [] => pure []
  | .mk pattern _ body :: cases => do
      let type ← inScope (do
        bindPatternVars t scrutinee pattern
        inferType t body)
      let types ← inferCases t scrutinee cases
      pure (type :: types)

/-- The statements of a block expression, and the type of the last one. -/
def checkBlock (t : Tables) : List Stmt → Check ValueType
  | [] => pure .nothing
  | [.expr value] => inferType t value
  | stmt :: stmts => do
      let _ ← checkStmt t stmt
      checkBlock t stmts

/-- The bodies of the catch clauses of a try expression. -/
def checkCatchBodies (t : Tables) : List CatchClause → Check Unit
  | [] => pure ()
  | .mk _ _ body :: catches => do
      let _ ← checkStmt t body
      checkCatchBodies t catches

/-- `check_stmt`: whether a statement returns. -/
def checkStmt (t : Tables) : Stmt → Check Bool
  | .letStmt name type value => do
      declaring name false (do
        let valueType ← inferOption t value
        declaredType t type valueType)
      pure false
  | .varStmt name type value => do
      declaring name true (do
        let valueType ← inferOption t value
        declaredType t type valueType)
      pure false
  | .assignment target value => do
      let targetType ← inferType t target
      let valueType ← inferType t value
      checkArgument t targetType valueType
      checkTarget target
      pure false
  | .ifStmt cond thenBranch elseBranch => do
      let condType ← inferType t cond
      checkCondition condType
      let thenReturns ← checkStmt t thenBranch
      match elseBranch with
      | some elseBranch => do
          let elseReturns ← checkStmt t elseBranch
          pure (thenReturns && elseReturns)
      | none => pure false
  | .whileStmt cond body => do
      let condType ← inferType t cond
      checkCondition condType
      let _ ← insideLoop (checkStmt t body)
      pure false
  | .forStmt var iter body => do
      let iterType ← inferType t iter
      insertVariable var (loopVarType iterType)
      let _ ← insideLoop (checkStmt t body)
      pure false
  | .loop body => do
      let _ ← insideLoop (checkStmt t body)
      pure false
  | .returnStmt value => do
      let valueType ← inferOption t value
      let expected := (← state).currentReturnType
      checkReturned t expected valueType
      pure true
  | .breakStmt => do
      require (← state).inLoop .breakOutsideLoop
      pure false
  | .continueStmt => do
      require (← state).inLoop .continueOutsideLoop
      pure false
  | .throwStmt value => do
      let type ← inferType t value
      require (type.toText = "String" || type == .any) (.throwTypeMismatch type.toText)
      pure true
  | .tryStmt body catches finally_ => do
      let _ ← checkStmt t body
      checkCatches t catches
      checkOption t finally_
      pure false
  | .expr value => do
      let type ← inferType t value
      pure (type == .never)
  | .block stmts => inScope (checkStmts t stmts)
  | .empty => pure false
  | .deferStmt stmt => do
      let _ ← checkStmt t stmt
      pure false
  | .select arms default => do
      checkArms t arms
      checkOption t default
      pure false
  | .forC init cond update body => do
      checkOption t init
      let condType ← inferOption t cond
      condType.forM checkCondition
      let _ ← inferOption t update
      let _ ← insideLoop (checkStmt t body)
      pure false

/-- `check_stmt` of a statement that may be missing. -/
def checkOption (t : Tables) : Option Stmt → Check Unit
  | some stmt => do
      let _ ← checkStmt t stmt
      pure ()
  | none => pure ()

/-- `infer_type` of an expression that may be missing. -/
def inferOption (t : Tables) : Option Expr → Check (Option ValueType)
  | some value => do
      let type ← inferType t value
      pure (some type)
  | none => pure none

/-- The statements of a block; it returns if the last one does. -/
def checkStmts (t : Tables) : List Stmt → Check Bool
  | [] => pure false
  | [stmt] => checkStmt t stmt
  | stmt :: stmts => do
      let _ ← checkStmt t stmt
      checkStmts t stmts

/-- The catch clauses of a try statement. -/
def checkCatches (t : Tables) : List CatchClause → Check Unit
  | [] => pure ()
  | .mk param type body :: catches => do
      insertVariable param (fromParserType type)
      let _ ← checkStmt t body
      checkCatches t catches

/-- The arms of a select. -/
def checkArms (t : Tables) : List SelectArm → Check Unit
  | [] => pure ()
  | .mk channel var body :: arms => do
      let _ ← inferType t channel
      let _ ← inScope (do
        insertVariable var .int
        checkStmt t body)
      checkArms t arms

end

theorem inferType_literal (t : Tables) (value : Literal) :
    inferType t (.literal value) = pure (literalType value) := by
  rw [inferType]

theorem checkStmt_empty (t : Tables) : checkStmt t .empty = pure false := by
  rw [checkStmt]

end Tinox.Check
