import Tinox.Syntax.Ast

/-!
# Types of the checker

The checker's own types, how written types become such types, and when a value
of one type may stand where another is expected.
-/

namespace Tinox.Check

open Tinox.Syntax

/-- Types of values (`ValueType`). -/
inductive ValueType where
  | int | float | bool | char | string | nothing | never | any
  | array (elem : ValueType)
  | map (value : ValueType)
  | ref | fn
  | named (name : String) (args : List ValueType)
  | tuple | range
  | nullable (inner : ValueType)
  | null
  deriving Repr, Inhabited

/-- Equality of types, which ignores the arguments of named types. -/
def ValueType.beq : ValueType → ValueType → Bool
  | .int, .int | .float, .float | .bool, .bool | .char, .char | .string, .string
  | .nothing, .nothing | .never, .never | .any, .any | .ref, .ref | .fn, .fn
  | .tuple, .tuple | .range, .range | .null, .null => true
  | .array a, .array b => a.beq b
  | .map a, .map b => a.beq b
  | .nullable a, .nullable b => a.beq b
  | .named a _, .named b _ => a == b
  | _, _ => false

instance : BEq ValueType :=
  ⟨ValueType.beq⟩

theorem ValueType.beq_refl (type : ValueType) : (type == type) = true := by
  change type.beq type = true
  induction type using ValueType.rec (motive_2 := fun _ => True) with
  | array elem ih | map value ih | nullable inner ih => exact ih
  | named name args => exact beq_self_eq_true name
  | nil | cons head tail => trivial
  | _ => rfl

/-- `from_parser_type`. -/
def fromParserType : Ty → ValueType
  | .int8 | .int16 | .int32 | .int64 | .uint8 | .uint16 | .uint32 | .uint64 => .int
  | .float32 | .float64 => .float
  | .bool => .bool
  | .char => .char
  | .string => .string
  | .nothing => .nothing
  | .never => .never
  | .any | .infer => .any
  | .named name => .named name []
  | .generic name args =>
      let types := args.map fromParserType
      if name = "Array" ∨ name = "List" then .array (types.headD .any)
      else if name = "Map" then .map ((types[1]?).getD .any)
      else .named name types
  | .array elem => .array (fromParserType elem)
  | .map _ value => .map (fromParserType value)
  | .tuple _ => .tuple
  | .mutable _ | .ref _ => .ref
  | .fn _ _ => .fn
  | .nullable inner => .nullable (fromParserType inner)

/-- `types_compatible`: whether `b` may stand where `a` is expected, given the
interfaces that each class names. -/
def typesCompatible (implementations : String → Option (List String)) :
    ValueType → ValueType → Bool
  | .array a, b =>
      .array a == b ||
        match b with
        | .any => true
        | .array b => typesCompatible implementations a b
        | _ => false
  | .map a, b =>
      .map a == b ||
        match b with
        | .any => true
        | .map b => typesCompatible implementations a b
        | _ => false
  | .nullable inner, b =>
      .nullable inner == b ||
        match b with
        | .any | .null => true
        | b => typesCompatible implementations inner b
  | .named expected args, b =>
      .named expected args == b ||
        match b with
        | .any => true
        | .named found _ =>
            match implementations found with
            | some interfaces => interfaces.contains expected
            | none => false
        | .int => expected == "Channel"
        | _ => false
  | a, b =>
      a == b ||
        match a, b with
        | .int, .float | .float, .int => true
        | .any, _ | _, .any => true
        | _, _ => false

theorem typesCompatible_refl (implementations : String → Option (List String)) (type : ValueType) :
    typesCompatible implementations type type = true := by
  have same := type.beq_refl
  cases type <;> simp [typesCompatible, same]

/-- Signatures of functions (`FunctionSignature`). -/
structure Signature where
  params : List (String × ValueType)
  returnType : ValueType
  deriving Repr, Inhabited

/-- The comparison of two signatures of one method: as many parameters, and
compatible types. -/
def signaturesMatch (implementations : String → Option (List String)) (own parent : Signature) :
    Bool :=
  own.params.length == parent.params.length &&
    ((own.params.zip parent.params).all fun (a, b) => typesCompatible implementations a.2 b.2) &&
    typesCompatible implementations own.returnType parent.returnType

theorem signaturesMatch_refl (implementations : String → Option (List String))
    (signature : Signature) : signaturesMatch implementations signature signature = true := by
  have params : ∀ types : List (String × ValueType),
      ((types.zip types).all fun (a, b) => typesCompatible implementations a.2 b.2) = true := by
    intro types
    induction types with
    | nil => rfl
    | cons head tail ih =>
        rw [List.zip_cons_cons, List.all_cons, ih, Bool.and_true]
        exact typesCompatible_refl implementations head.2
  rw [signaturesMatch, params, typesCompatible_refl, beq_self_eq_true]
  rfl

end Tinox.Check
