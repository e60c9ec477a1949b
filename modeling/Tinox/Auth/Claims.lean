import Tinox.Runtime.JsonRoundTrip

/-!
# Claims

A token's claims are a table of JSON values.  Their numbers are read by an accessor that looks at
the bits of a value whatever its type is.
-/

namespace Tinox.Auth

open Tinox.Runtime JsonText

/-- `Map<String, JsonValue>`. -/
abbrev Claims := TinoxMap CString JsonValue

/-- `JsonValue.asTable` (`jsonGetObject`). -/
def asTable : JsonValue → Claims
  | .object m => m
  | _ => tinoxMapCreate

/-- `JsonValue.getString` (`jsonGetString`). -/
def getString : JsonValue → CString
  | .string bytes => bytes
  | _ => []

/-- `claims[name]`, of a name that the table contains. -/
def claim (claims : Claims) (name : CString) : Option JsonValue :=
  lookup stringHash claims name

section Accessors

/- The conversion of a `double` to an `int64_t`. -/
variable (truncate : UInt64 → Int64)

/-- What `JsonValue.asInt` (`jsonGetInt`) returns: of a string, an array or an object it is the
address, which can be any number. -/
inductive AsInt : JsonValue → Int64 → Prop where
  | null : AsInt .null 0
  | bool (value : Bool) : AsInt (.bool value) (if value then 1 else 0)
  | int (value : Int64) : AsInt (.int value) value
  | float (bits : UInt64) : AsInt (.float bits) (truncate bits)
  | string (bytes : CString) (address : Int64) : AsInt (.string bytes) address
  | array (values : List JsonValue) (address : Int64) : AsInt (.array values) address
  | intArray (values : List Int64) (address : Int64) : AsInt (.intArray values) address
  | object (m : Claims) (address : Int64) : AsInt (.object m) address

/-- The number that a value is. -/
def number : JsonValue → Option Int64
  | .int value => some value
  | .float bits => some (truncate bits)
  | _ => none

theorem AsInt.of_number {value : JsonValue} {n m : Int64} (isNumber : number truncate value = some n)
    (reads : AsInt truncate value m) : m = n := by
  cases reads <;> simp_all [number]

end Accessors

section Texts

variable (atof : CString → UInt64) (printFloat : UInt64 → CString)

/-- `Json::parse`. -/
def Parses (text : CString) (result : JsonValue) : Prop :=
  Eventually (fun fuel => jsonParse atof fuel (some text)) result

/-- `Json::stringify(Json::fromMap(claims))`. -/
def Stringifies (claims : Claims) (text : CString) : Prop :=
  Eventually (fun fuel => jsonStringify printFloat fuel (.object claims)) text

/-- The number that a value stands for. -/
def numberOf : Value → Option Int64
  | .int value => some (Int64.ofInt value)
  | _ => none

end Texts

end Tinox.Auth
