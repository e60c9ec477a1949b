import Tinox.Runtime.MapSlots

/-!
# The JSON reader

`jsonParse` reads a value by recursive descent.  An array is first read as one of
integers, and from its start again when it has another element.
-/

namespace Tinox.Runtime

open Probing

/-- `TinoxJsonValue`; a float is the bits of its `double`. -/
inductive JsonValue where
  | null
  | bool (value : Bool)
  | int (value : Int64)
  | float (bits : UInt64)
  | string (value : CString)
  | array (values : List JsonValue)
  | object (map : TinoxMap CString JsonValue)
  | intArray (values : List Int64)

/-- `**p == c`. -/
def isAt (c : Char) (p : CString) : Bool :=
  p.head? = some c.toUInt8

/-- `if (**p == c) (*p)++`. -/
def skipByte (c : Char) (p : CString) : CString :=
  if isAt c p then p.tail else p

def isSpace (b : UInt8) : Bool :=
  b = ' '.toUInt8 || b = '\t'.toUInt8 || b = '\r'.toUInt8 || b = '\n'.toUInt8

/-- `json_skip_ws`. -/
def jsonSkipWs (p : CString) : CString :=
  p.dropWhile isSpace

def isDigit (b : UInt8) : Bool :=
  '0'.toUInt8 ≤ b && b ≤ '9'.toUInt8

/-- `while (**p >= '0' && **p <= '9') (*p)++`. -/
def skipDigits (p : CString) : CString :=
  p.dropWhile isDigit

/-- `while (**p >= '0' && **p <= '9') val = val * 10 + (*(*p)++ - '0')`. -/
def readDigits (val : Int64) : CString → Int64 × CString
  | [] => (val, [])
  | b :: p =>
      if isDigit b then readDigits (val * 10 + Int64.ofNat (b - '0'.toUInt8).toNat) p
      else (val, b :: p)

/-- `json_obj_map_create`. -/
def jsonObjMapCreate : TinoxMap CString JsonValue :=
  ⟨List.replicate 4 .empty, 0⟩

/-- `json_obj_map_set`, whose loops are those of `tinox_map_set`.  One that has not ended
after a round of the doubled table never ends. -/
def jsonObjMapSet (m : TinoxMap CString JsonValue) (key : CString) (value : JsonValue) :
    Option (TinoxMap CString JsonValue) :=
  tinoxMapSet stringHash (m.cap * 2) m key value

/-- What an escape stands for. -/
def unescape (esc : UInt8) : UInt8 :=
  if esc = 'n'.toUInt8 then '\n'.toUInt8
  else if esc = 't'.toUInt8 then '\t'.toUInt8
  else if esc = 'r'.toUInt8 then '\r'.toUInt8
  else if esc = '"'.toUInt8 then '"'.toUInt8
  else if esc = '\\'.toUInt8 then '\\'.toUInt8
  else if esc = '/'.toUInt8 then '/'.toUInt8
  else esc

/-- The copying loop of `json_parse_string_raw` and the closing quote. -/
def copyString : CString → CString × CString
  | [] => ([], [])
  | [b] => if b = '"'.toUInt8 then ([], []) else if b = '\\'.toUInt8 then ([], []) else ([b], [])
  | b :: esc :: p =>
      if b = '"'.toUInt8 then ([], esc :: p)
      else if b = '\\'.toUInt8 then ((copyString p).map (unescape esc :: ·) id)
      else (copyString (esc :: p)).map (b :: ·) id

/-- `json_parse_string_raw`. -/
def jsonParseStringRaw (p : CString) : CString × CString :=
  copyString p.tail

/-- The integer at the start of a text, with the rest after its digits. -/
def readInteger (p : CString) : Int64 × CString :=
  ((if isAt '-' p then -(readDigits 0 (skipByte '-' p)).1 else (readDigits 0 (skipByte '-' p)).1),
    (readDigits 0 (skipByte '-' p)).2)

/-- The end of a fraction. -/
def skipFraction (p : CString) : CString :=
  if isAt '.' p then skipDigits p.tail else p

/-- The end of an exponent. -/
def skipExponent (p : CString) : CString :=
  if isAt 'e' p || isAt 'E' p then
    skipDigits (if isAt '+' p.tail || isAt '-' p.tail then p.tail.tail else p.tail)
  else p

section Values

/- The bits of the `double` that `atof` reads. -/
variable (atof : CString → UInt64)

/-- The numbers of `json_parse_value`; a byte that starts no value is skipped. -/
def jsonParseNumber (start : CString) : JsonValue × CString :=
  let digits := skipDigits (skipByte '-' start)
  let fraction := skipFraction digits
  let p := skipExponent fraction
  if p.length = start.length then (.null, p.tail)
  else if p.length = digits.length then (.int (readInteger start).1, p)
  else (.float (atof start), p)

/-- The literals and numbers of `json_parse_value`. -/
def jsonParseScalar (p : CString) : JsonValue × CString :=
  if "true".toList.map Char.toUInt8 <+: p then (.bool true, p.drop 4)
  else if "false".toList.map Char.toUInt8 <+: p then (.bool false, p.drop 5)
  else if "null".toList.map Char.toUInt8 <+: p then (.null, p.drop 4)
  else jsonParseNumber atof p

/-- The loop over an array of integers from its start; `some none` for another array. -/
def jsonParseIntegers : Nat → List Int64 → CString → Option (Option (List Int64 × CString))
  | 0, _, _ => none
  | fuel + 1, values, p =>
      if p.isEmpty then some none
      else if isAt ']' p then some (some (values, p.tail))
      else if !(skipByte '-' (jsonSkipWs p)).head?.any isDigit then some none
      else
        let value := (readInteger (jsonSkipWs p)).1
        let p := jsonSkipWs (readInteger (jsonSkipWs p)).2
        if isAt ',' p || isAt ']' p then jsonParseIntegers fuel (values ++ [value]) (skipByte ',' p)
        else some none

mutual

/-- `json_parse_value`; the fuel bounds its depth and the rounds of its loops. -/
def jsonParseValue : Nat → CString → Option (JsonValue × CString)
  | 0, _ => none
  | fuel + 1, p =>
      let p := jsonSkipWs p
      if p.isEmpty then some (.null, p)
      else if isAt '"' p then
        some ((jsonParseStringRaw p).map .string id)
      else if isAt '{' p then
        jsonParseMembers fuel jsonObjMapCreate (jsonSkipWs p.tail)
      else if isAt '[' p then
        let p := jsonSkipWs p.tail
        if isAt ']' p then some (.intArray [], p.tail)
        else
          match jsonParseIntegers fuel [] p with
          | none => none
          | some (some (values, p)) => some (.intArray values, p)
          | some none => jsonParseElements fuel [] p
      else some (jsonParseScalar atof p)

/-- The loop over the members of an object and its closing brace. -/
def jsonParseMembers : Nat → TinoxMap CString JsonValue → CString → Option (JsonValue × CString)
  | 0, _, _ => none
  | fuel + 1, m, p =>
      if p.isEmpty || isAt '}' p then some (.object m, skipByte '}' p)
      else
        let p := jsonSkipWs p
        if !isAt '"' p then some (.object m, skipByte '}' p)
        else
          let key := (jsonParseStringRaw p).1
          let p := skipByte ':' (jsonSkipWs (jsonParseStringRaw p).2)
          match jsonParseValue fuel p with
          | none => none
          | some (val, p) =>
              match jsonObjMapSet m key val with
              | none => none
              | some m => jsonParseMembers fuel m (skipByte ',' (jsonSkipWs p))

/-- The loop over the elements of an array and its closing bracket. -/
def jsonParseElements : Nat → List JsonValue → CString → Option (JsonValue × CString)
  | 0, _, _ => none
  | fuel + 1, values, p =>
      if p.isEmpty || isAt ']' p then some (.array values, skipByte ']' p)
      else
        match jsonParseValue fuel p with
        | none => none
        | some (elem, p) =>
            jsonParseElements fuel (values ++ [elem]) (jsonSkipWs (skipByte ',' (jsonSkipWs p)))

end

/-- `jsonParse`; `none` is a null pointer. -/
def jsonParse (fuel : Nat) : Option CString → Option JsonValue
  | none => some .null
  | some text => (jsonParseValue atof fuel text).map Prod.fst

end Values

end Tinox.Runtime
