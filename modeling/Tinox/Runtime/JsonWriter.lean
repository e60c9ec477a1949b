import Tinox.Runtime.JsonReader

/-!
# The JSON writers

`jsonStringify` writes a value, `tinoxJsonEncodeString` a single string, and a
`JsonBuilder` the fields of an object one after the other.
-/

namespace Tinox.Runtime

open Probing

/-- The bytes of a literal. -/
def literal (text : String) : CString :=
  text.toList.map Char.toUInt8

theorem literal_ofList (chars : List Char) : literal (String.ofList chars) = chars.map Char.toUInt8 := by
  rw [literal, String.toList_ofList]

/-- The text of `%lld`. -/
def printInteger (value : Int64) : CString :=
  (if value.toInt < 0 then literal "-" else []) ++
    (Nat.toDigits 10 value.toInt.natAbs).map Char.toUInt8

/-- `g_digit_pairs`. -/
def digitPairs : CString :=
  literal ("00010203040506070809" ++ "10111213141516171819" ++ "20212223242526272829" ++
    "30313233343536373839" ++ "40414243444546474849" ++ "50515253545556575859" ++
    "60616263646566676869" ++ "70717273747576777879" ++ "80818283848586878889" ++
    "90919293949596979899")

/-- The two digits at `d = 2 * value` in the table. -/
def digitPair (value : Nat) : CString :=
  [digitPairs.getD (value * 2) 0, digitPairs.getD (value * 2 + 1) 0]

/-- The loop of `fast_i64_write` and the digits after it, already turned round. -/
def fastDigits (uval : UInt64) : CString :=
  if 100 ≤ uval then fastDigits (uval / 100) ++ digitPair (uval % 100).toNat
  else if 10 ≤ uval then digitPair uval.toNat
  else ['0'.toUInt8 + uval.toUInt8]
termination_by uval.toNat
decreasing_by
  rename_i large
  have large' : 100 ≤ uval.toNat := UInt64.le_iff_toNat_le.mp large
  rw [UInt64.toNat_div]
  exact Nat.div_lt_self (by omega) (by decide)

/-- `fast_i64_write`. -/
def fastI64Write (val : Int64) : CString :=
  if val.toUInt64 < 10 then ['0'.toUInt8 + val.toUInt64.toUInt8]
  else if val.toUInt64 < 100 then digitPair val.toUInt64.toNat
  else if val < 0 then '-'.toUInt8 :: fastDigits (-val.toUInt64)
  else fastDigits val.toUInt64

/-- The branches of all three escapers. -/
def escaped (c : UInt8) : CString :=
  if c = '"'.toUInt8 then ['\\'.toUInt8, '"'.toUInt8]
  else if c = '\\'.toUInt8 then ['\\'.toUInt8, '\\'.toUInt8]
  else if c = '\n'.toUInt8 then ['\\'.toUInt8, 'n'.toUInt8]
  else if c = '\r'.toUInt8 then ['\\'.toUInt8, 'r'.toUInt8]
  else if c = '\t'.toUInt8 then ['\\'.toUInt8, 't'.toUInt8]
  else [c]

/-- `json_append`. -/
def jsonAppend (out s : CString) : CString :=
  out ++ s

/-- `json_append_str`. -/
def jsonAppendStr (out s : CString) : CString :=
  jsonAppend (s.foldl (fun out p => jsonAppend out (escaped p)) (jsonAppend out (literal "\"")))
    (literal "\"")

/-- `tinox_json_encode_string`; `none` is a null pointer. -/
def tinoxJsonEncodeString (s : Option CString) : CString :=
  (s.getD []).foldl (fun buf c => buf ++ escaped c) (literal "\"") ++ literal "\""

section Values

/- The text of `%g` for a float. -/
variable (printFloat : UInt64 → CString)

/-- The loop over an array of integers; `first` is the test `i > 0`. -/
def stringifyIntegers (first : Bool) : List Int64 → CString → CString
  | [], out => out
  | value :: values, out =>
      stringifyIntegers false values
        (jsonAppend (if first then out else jsonAppend out (literal ",")) (fastI64Write value))

/-- The pointer that `tinox_map_get` finds; no value is a null pointer, which is written as
`null`. -/
def jsonMapGet (fuel : Nat) (m : TinoxMap CString JsonValue) (key : CString) : Option JsonValue :=
  (findKey stringHash fuel m key).map fun idx =>
    match slotAt m.entries idx with
    | .live _ value => value
    | .empty | .deleted => .null

mutual

/-- `json_stringify_value`; the fuel bounds its depth and the rounds of its loops. -/
def jsonStringifyValue : Nat → JsonValue → CString → Option CString
  | 0, _, _ => none
  | fuel + 1, v, out =>
      match v with
      | .null => some (jsonAppend out (literal "null"))
      | .bool value => some (jsonAppend out (literal (if value then "true" else "false")))
      | .int value => some (jsonAppend out (printInteger value))
      | .float bits => some (jsonAppend out (printFloat bits))
      | .string value => some (jsonAppendStr out value)
      | .intArray values =>
          some (jsonAppend (stringifyIntegers true values (jsonAppend out (literal "[")))
            (literal "]"))
      | .array values =>
          (stringifyElements fuel true values (jsonAppend out (literal "["))).map
            (jsonAppend · (literal "]"))
      | .object m =>
          (stringifyMembers fuel true m (tinoxMapKeys m) (jsonAppend out (literal "\x7b"))).map
            (jsonAppend · (literal "\x7d"))

/-- The loop over the elements of an array. -/
def stringifyElements : Nat → Bool → List JsonValue → CString → Option CString
  | 0, _, _, _ => none
  | _ + 1, _, [], out => some out
  | fuel + 1, first, value :: values, out =>
      match jsonStringifyValue fuel value
          (if first then out else jsonAppend out (literal ",")) with
      | none => none
      | some out => stringifyElements fuel false values out

/-- The loop over the keys of an object; a null key is not written. -/
def stringifyMembers : Nat → Bool → TinoxMap CString JsonValue → List (Option CString) → CString →
    Option CString
  | 0, _, _, _, _ => none
  | _ + 1, _, _, [], out => some out
  | _ + 1, _, _, none :: _, _ => none
  | fuel + 1, first, m, some k :: keys, out =>
      match jsonMapGet fuel m k with
      | none => none
      | some v =>
          match jsonStringifyValue fuel v (jsonAppend (jsonAppendStr
              (if first then out else jsonAppend out (literal ",")) k) (literal ":")) with
          | none => none
          | some out => stringifyMembers fuel false m keys out

end

/-- `jsonStringify`. -/
def jsonStringify (fuel : Nat) (value : JsonValue) : Option CString :=
  jsonStringifyValue printFloat fuel value []

end Values

/-- `JsonBuilder`; its capacity is left out. -/
structure JsonBuilder where
  buf : CString
  first : Bool

/-- `jsonBuilderCreate`. -/
def jsonBuilderCreate : JsonBuilder :=
  ⟨literal "\x7b", true⟩

/-- `jb_key`. -/
def jbKey (b : JsonBuilder) (key : CString) : JsonBuilder :=
  ⟨(if b.first then b.buf else b.buf ++ literal ",") ++ literal "\"" ++ key ++ literal "\"" ++
    literal ":", false⟩

/-- `jsonBuilderAddString`; `none` is a null pointer. -/
def jsonBuilderAddString (b : JsonBuilder) (key : CString) (val : Option CString) : JsonBuilder :=
  { jbKey b key with
    buf := (val.getD []).foldl (fun buf c => buf ++ escaped c) ((jbKey b key).buf ++ literal "\"") ++
      literal "\"" }

end Tinox.Runtime
