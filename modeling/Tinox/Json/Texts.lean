import Tinox.Json.Grammar

/-!
# Texts of JSON with all numbers

The grammar once more with fractions and exponents, for what does not ask which value a text
denotes.
-/

namespace JsonText

/-- Decimal digits. -/
def digitText (digits : List (Fin 10)) : Bytes :=
  digits.map fun digit : Fin 10 => '0'.toUInt8 + UInt8.ofNat digit.val

/-- The sign of an exponent. -/
inductive Sign where
  | none
  | plus
  | minus
  deriving DecidableEq, Repr

namespace Sign

def bytes : Sign → Bytes
  | none => []
  | plus => ['+'.toUInt8]
  | minus => ['-'.toUInt8]

end Sign

/-- The exponent of a number, with at least one digit. -/
structure Exponent where
  upper : Bool
  sign : Sign
  first : Fin 10
  rest : List (Fin 10)

namespace Exponent

def bytes (exponent : Exponent) : Bytes :=
  (if exponent.upper then 'E'.toUInt8 else 'e'.toUInt8) ::
    (exponent.sign.bytes ++ digitText (exponent.first :: exponent.rest))

end Exponent

/-- A number with a fraction or an exponent; a fraction without digits is none. -/
structure Decimal where
  minus : Bool
  first : Fin 10
  rest : List (Fin 10)
  fraction : List (Fin 10)
  exponent : Option Exponent
  noLeadingZero : first = 0 → rest = []
  notInteger : fraction = [] → exponent ≠ none

namespace Decimal

/-- The fraction behind its point. -/
def fractionBytes (number : Decimal) : Bytes :=
  if number.fraction = [] then [] else '.'.toUInt8 :: digitText number.fraction

def exponentBytes (number : Decimal) : Bytes :=
  match number.exponent with
  | none => []
  | some exponent => exponent.bytes

def bytes (number : Decimal) : Bytes :=
  (if number.minus then ['-'.toUInt8] else []) ++ digitText (number.first :: number.rest) ++
    (number.fractionBytes ++ number.exponentBytes)

end Decimal

mutual

/-- The text of a value; the lists of `Texts` and `Fields` are not empty. -/
inductive Text where
  | null
  | bool (value : Bool)
  | int (number : Integer)
  | decimal (number : Decimal)
  | string (items : List Item)
  | emptyArray (inner : List Space)
  | array (elements : Texts)
  | emptyObject (inner : List Space)
  | object (members : Fields)

inductive Texts where
  | last (before : List Space) (element : Text) (after : List Space)
  | more (before : List Space) (element : Text) (after : List Space) (rest : Texts)

inductive Fields where
  | last (before : List Space) (name : List Item) (afterName : List Space)
      (beforeValue : List Space) (value : Text) (after : List Space)
  | more (before : List Space) (name : List Item) (afterName : List Space)
      (beforeValue : List Space) (value : Text) (after : List Space) (rest : Fields)

end

mutual

def Text.bytes : Text → Bytes
  | .null => "null".toList.map Char.toUInt8
  | .bool true => "true".toList.map Char.toUInt8
  | .bool false => "false".toList.map Char.toUInt8
  | .int number => number.bytes
  | .decimal number => number.bytes
  | .string items => stringBytes items
  | .emptyArray inner => '['.toUInt8 :: spaces inner ++ [']'.toUInt8]
  | .array elements => '['.toUInt8 :: elements.bytes ++ [']'.toUInt8]
  | .emptyObject inner => '{'.toUInt8 :: spaces inner ++ ['}'.toUInt8]
  | .object members => '{'.toUInt8 :: members.bytes ++ ['}'.toUInt8]

def Texts.bytes : Texts → Bytes
  | .last before element after => spaces before ++ element.bytes ++ spaces after
  | .more before element after rest =>
      spaces before ++ element.bytes ++ spaces after ++ ','.toUInt8 :: rest.bytes

def Fields.bytes : Fields → Bytes
  | .last before name afterName beforeValue value after =>
      spaces before ++ stringBytes name ++ spaces afterName ++
        ':'.toUInt8 :: spaces beforeValue ++ value.bytes ++ spaces after
  | .more before name afterName beforeValue value after rest =>
      spaces before ++ stringBytes name ++ spaces afterName ++
        ':'.toUInt8 :: spaces beforeValue ++ value.bytes ++ spaces after ++ ','.toUInt8 :: rest.bytes

end

namespace Texts

/-- The elements of an array in their order. -/
def elements : Texts → List Text
  | last _ element _ => [element]
  | more _ element _ rest => element :: rest.elements

end Texts

namespace Text

/-- An integer, neither with a fraction nor with an exponent. -/
def isInteger : Text → Bool
  | int _ => true
  | _ => false

end Text

/-- A whole text whose value is an array. -/
inductive ArrayText where
  | empty (before inner after : List Space)
  | filled (before : List Space) (elements : Texts) (after : List Space)

namespace ArrayText

def bytes : ArrayText → Bytes
  | empty before inner after => spaces before ++ ((Text.emptyArray inner).bytes ++ spaces after)
  | filled before elements after => spaces before ++ ((Text.array elements).bytes ++ spaces after)

def elements : ArrayText → List Text
  | empty .. => []
  | filled _ elements _ => elements.elements

end ArrayText

end JsonText
