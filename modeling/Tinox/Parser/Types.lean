import Tinox.Parser.State

/-!
# Types, patterns, annotations and parameters
-/

namespace Tinox.Parser

open Tinox.Syntax Parse

variable (r : Rec)

/-- Names of built-in types. -/
def builtinType : Ident → Option Ty
  | "Int8" => some .int8
  | "Int16" => some .int16
  | "Int32" => some .int32
  | "Int64" => some .int64
  | "UInt8" => some .uint8
  | "UInt16" => some .uint16
  | "UInt32" => some .uint32
  | "UInt64" => some .uint64
  | "Float32" => some .float32
  | "Float64" => some .float64
  | "Bool" => some .bool
  | "Char" => some .char
  | "String" => some .string
  | "Nothing" => some .nothing
  | "Never" => some .never
  | "Any" => some .any
  | _ => none

/-- The part of `parse_type_base` behind a type name. -/
def parseNamedType (name : Ident) : Parse Ty := do
  match builtinType name with
  | some ty => return ty
  | none =>
      if name == "Map" then
        expect .less
        let key ← r.type
        expect .comma
        let value ← r.type
        expectGenericClose
        return .map key value
      else if ← check .less then
        bump
        let args ← commaList1 r.type
        expectGenericClose
        return .generic name args
      else
        return .named name

/-- `parse_type_base`. -/
def parseTypeBase : Parse Ty := do
  if ← checkKeyword .Nothing then
    bump
    return .nothing
  else if ← checkKeyword .Any then
    bump
    return .any
  else if ← checkKeyword .Never then
    bump
    return .never
  else
    parseNamedType r (← parseIdent)

/-- The tokens between the brackets of an array type are skipped. -/
def skipToBracket : List TokenKind → List TokenKind
  | [] => []
  | .rBracket :: rest => .rBracket :: rest
  | .eof :: rest => .eof :: rest
  | _ :: rest => skipToBracket rest

/-- The suffixes `[..]` of a type. -/
def parseArraySuffixes (base : Ty) : Parse Ty :=
  loop (fun base => do
    if ← check .lBracket then
      bump
      modify fun s => { s with rest := skipToBracket s.rest }
      if ← isAtEnd then
        error "expected ']' in array type"
      else
        bump
        return .inl (.array base)
    else
      return .inr base) base

/-- The parameters and the result of a function type, behind `(`. -/
def parseFnTypeTail (first : List Ty) (arrow : Bool) : Parse Ty := do
  let params ← commaList r.type .rParen
  expect .rParen
  if arrow then
    expect .thinArrow
    return .fn (first ++ params) (← r.type)
  else if ← consume .thinArrow then
    return .fn (first ++ params) (← r.type)
  else
    return .fn (first ++ params) .nothing

/-- A type without a prefix, with its suffixes. -/
def parseSuffixedType : Parse Ty := do
  let base ← parseTypeBase r
  let base ← parseArraySuffixes base
  let base ← (do
    if ← check .star then
      bump
      return Ty.ref base
    else
      return base)
  let base ← (do
    if ← consume .question then
      return Ty.nullable base
    else
      return base)
  if ← check .lParen then
    bump
    parseFnTypeTail r [base] true
  else
    return base

/-- `parse_type`. -/
def parseType : Parse Ty := do
  if ← check .lParen then
    bump
    let types ← commaList r.type .rParen
    expect .rParen
    return .tuple types
  else if ← check .star then
    bump
    return .ref (← r.type)
  else if ← check .question then
    bump
    return .ref (← r.type)
  else if ← consumeKeyword .Mut then
    return .mutable (← r.type)
  else if ← checkKeyword .Fnc then
    bump
    expect .lParen
    parseFnTypeTail r [] false
  else
    parseSuffixedType r

/-- `parse_type_params`. -/
def parseTypeParams : Parse (List String) := do
  expect .less
  let params ← commaList1 parseIdent
  expect .greater
  return params

/-- The type parameters of a declaration, if there are any. -/
def parseOptTypeParams : Parse (List String) := do
  if ← check .less then
    parseTypeParams
  else
    return []

/-- The literal that a token is as a pattern. -/
def patternLiteral : TokenKind → Option Literal
  | .integer value => some (.integer value)
  | .float bits => some (.float bits)
  | .string value => some (.string value)
  | .char value => some (.char value)
  | .byte value => some (.byte value)
  | .keyword .True | .bool true => some (.bool true)
  | .keyword .False | .bool false => some (.bool false)
  | _ => none

/-- Patterns in parentheses, the opening one being the current token. -/
def parsePatternArgs : Parse (List Pattern) := do
  bump
  let args ← commaList r.pattern .rParen
  expect .rParen
  return args

/-- The part of `parse_pattern` behind a name. -/
def parseNamePattern (name : Ident) : Parse Pattern := do
  if (← check .colonColon) || (← check .dot) then
    bump
    let variant ← parseIdent
    if ← check .lParen then
      return .enumVariant name variant (← parsePatternArgs r)
    else
      return .enumVariant name variant []
  else if ← check .lParen then
    return .enumVariant name "" (← parsePatternArgs r)
  else
    return .ident name none

/-- `parse_pattern`. -/
def parsePattern : Parse Pattern := do
  if ← check .underscore then
    bump
    return .wildcard
  else if ← check .lParen then
    return .tuple (← parsePatternArgs r)
  else
    match patternLiteral (← peek) with
    | some literal => do
        bump
        return .literal literal
    | none => parseNamePattern r (← parseIdent)

/-- The literal that a token is as an argument of an annotation. -/
def annotationLiteral : TokenKind → Option Literal
  | .integer value => some (.integer value)
  | .float bits => some (.float bits)
  | .string value => some (.string value)
  | .bool value => some (.bool value)
  | .keyword .True => some (.bool true)
  | .keyword .False => some (.bool false)
  | _ => none

/-- The part of `parse_annotation_arg` behind an identifier. -/
def parseEnumMember (typeName : Ident) : Parse AnnotationArg := do
  let message := "expected TypeName.VariantName for enum annotation argument"
  if ← consume .dot then
    match ← peek with
    | .ident variant => do
        bump
        return .enumValue typeName variant
    | _ => error message
  else
    error message

/-- `parse_annotation_arg`. -/
def parseAnnotationArg : Parse AnnotationArg := do
  let token ← peek
  match annotationLiteral token with
  | some literal => do
      bump
      return .literal literal
  | none =>
      match token with
      | .lBracket => do
          bump
          let items ← commaListTrailing r.annotationArg .rBracket
          expect .rBracket
          return .array items
      | .ident typeName => do
          bump
          parseEnumMember typeName
      | _ => error ("expected annotation argument (string, int, float, bool, " ++
          "EnumType.Variant, or [...])")

/-- An argument of an annotation; a malformed one is dropped. -/
def parseAnnotationArgOk (args : List AnnotationArg) : Parse (List AnnotationArg) := do
  match ← result r.annotationArg with
  | .ok arg => return args ++ [arg]
  | .error _ => return args

/-- The arguments of an annotation, behind `(`.  When the first one is
malformed, no further one is tried. -/
def parseAnnotationArgs : Parse (List AnnotationArg) := do
  if ← check .rParen then
    return []
  else
    match ← result r.annotationArg with
    | .error _ => return []
    | .ok first =>
        loop (fun args => do
          if ← consume .comma then
            return .inl (← parseAnnotationArgOk r args)
          else
            return .inr args) [first]

/-- One annotation, the current tokens being `@` and an identifier. -/
def parseAnnotation : Parse Annotation := do
  bump
  let name := match ← result parseIdent with
    | .ok name => name
    | .error _ => ""
  if ← check .lParen then
    bump
    let args ← parseAnnotationArgs r
    let _ ← result (expect .rParen)
    return { name, args }
  else
    return { name, args := [] }

/-- Whether a token is an identifier. -/
def isIdent : Option TokenKind → Bool
  | some (.ident _) => true
  | _ => false

/-- `parse_annotations`. -/
def parseAnnotations : Parse (List Annotation) :=
  loop (fun annotations => do
    if (← check .at) && isIdent (← peekAhead 1) then
      return .inl (annotations ++ [← parseAnnotation r])
    else
      return .inr annotations) []

/-- `parse_param`. -/
def parseParam : Parse Param := do
  let annotations ← parseAnnotations r
  let name ← parseIdent
  expect .colon
  let paramType ← r.type
  return { name, paramType, annotations }

/-- `parse_lambda_param` and `parse_fn_lambda_param`. -/
def parseLambdaParam : Parse Param := do
  let name ← parseIdent
  if ← consume .colon then
    return { name, paramType := ← r.type, annotations := [] }
  else
    return { name, paramType := .infer, annotations := [] }

end Tinox.Parser
