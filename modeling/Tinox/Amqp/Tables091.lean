import Tinox.Amqp.Bytes
import Tinox.Runtime.JsonWriter

/-!
# AMQP 0-9-1 field tables

`AmqpWriter091.fieldTable` writes the entries of a table with an inner writer and puts their
length in front.  A key that is too long sets a flag of the writer that it was given to, and the
flag of an inner writer is never looked at.
-/

namespace Tinox.Amqp

open Tinox.Net Tinox.Runtime

/-- `AmqpFieldValue091`; a table is the list of its entries in the order of its keys. -/
inductive AmqpFieldValue091 where
  | boolVal (b : Bool)
  | int32Val (n : Int64)
  | int64Val (n : Int64)
  | strVal (s : CString)
  | timestampVal (t : Int64)
  | tableVal (t : List (CString × AmqpFieldValue091))
  | arrayVal (a : List AmqpFieldValue091)
  | voidVal
  | errorVal (msg : CString)

/-- A map from keys to values, as the list of its entries. -/
abbrev FieldTable091 := List (CString × AmqpFieldValue091)

/-- `AmqpWriter091`. -/
structure AmqpWriter091 where
  bytes : List Int64
  tooLong : Bool
  deriving DecidableEq

namespace AmqpWriter091

def new : AmqpWriter091 :=
  ⟨[], false⟩

def hasError (w : AmqpWriter091) : Bool :=
  w.tooLong

/-- Bytes behind those of a writer. -/
def push (w : AmqpWriter091) (data : List Int64) : AmqpWriter091 :=
  { w with bytes := w.bytes ++ data }

def octet (w : AmqpWriter091) (v : Int64) : AmqpWriter091 :=
  w.push [v &&& 0xFF]

def long (w : AmqpWriter091) (v : Int64) : AmqpWriter091 :=
  w.push (fourBytes v)

def longlong (w : AmqpWriter091) (v : Int64) : AmqpWriter091 :=
  w.push (eightBytes v)

def rawStr (w : AmqpWriter091) (s : CString) : AmqpWriter091 :=
  w.push (stringBytes s)

def rawBytes (w : AmqpWriter091) (data : List Int64) : AmqpWriter091 :=
  w.push (lowBytes data)

def shortstr (w : AmqpWriter091) (s : CString) : AmqpWriter091 :=
  if 255 < Int64.ofNat s.length then { w with tooLong := true }
  else (w.octet (Int64.ofNat s.length)).rawStr s

def longstr (w : AmqpWriter091) (s : CString) : AmqpWriter091 :=
  (w.long (Int64.ofNat s.length)).rawStr s

/-- The bytes of an inner writer with their length in front. -/
def enclose (w inner : AmqpWriter091) : AmqpWriter091 :=
  (w.long (Int64.ofNat inner.bytes.length)).rawBytes inner.bytes

mutual

/-- `AmqpWriter091.fieldValue`. -/
def fieldValue (w : AmqpWriter091) : AmqpFieldValue091 → AmqpWriter091
  | .boolVal b => (w.octet 116).octet (if b then 1 else 0)
  | .int32Val n => (w.octet 73).long n
  | .int64Val n => (w.octet 76).longlong n
  | .strVal s => (w.octet 83).longstr s
  | .timestampVal t => (w.octet 84).longlong t
  | .tableVal t => (w.octet 70).enclose (entries new t)
  | .arrayVal a => (w.octet 65).enclose (items new a)
  | .voidVal => w.octet 86
  | .errorVal _ => w.octet 0

/-- The loop of `AmqpWriter091.fieldTable`. -/
def entries (inner : AmqpWriter091) : List (CString × AmqpFieldValue091) → AmqpWriter091
  | [] => inner
  | entry :: t => entries (entryOf inner entry) t

/-- A round of the loop of `AmqpWriter091.fieldTable`. -/
def entryOf (inner : AmqpWriter091) : CString × AmqpFieldValue091 → AmqpWriter091
  | (key, value) => fieldValue (inner.shortstr key) value

/-- The loop of `AmqpWriter091.fieldArray`. -/
def items (inner : AmqpWriter091) : List AmqpFieldValue091 → AmqpWriter091
  | [] => inner
  | value :: a => items (fieldValue inner value) a

end

/-- `AmqpWriter091.fieldTable`. -/
def fieldTable (w : AmqpWriter091) (t : FieldTable091) : AmqpWriter091 :=
  w.enclose (entries new t)

end AmqpWriter091

namespace AmqpReader091

def octet (r : Reader) : Int64 × Reader :=
  readByte r

def long (r : Reader) : Int64 × Reader :=
  readNumber 4 0 r

def longSigned (r : Reader) : Int64 × Reader :=
  let v := long r
  (if 2147483648 ≤ v.1 then v.1 - 4294967296 else v.1, v.2)

def longlong (r : Reader) : Int64 × Reader :=
  readNumber 8 0 r

/-- The loop of `rawStr`. -/
def octets : Nat → Reader → List Int64 × Reader
  | 0, r => ([], r)
  | n + 1, r =>
      let byte := octet r
      let rest := octets n byte.2
      (byte.1 :: rest.1, rest.2)

def rawStr (n : Int64) (r : Reader) : CString × Reader :=
  let bytes := octets n.toInt.toNat r
  (tinoxBytesToString bytes.1, bytes.2)

def shortstr (r : Reader) : CString × Reader :=
  rawStr (octet r).1 (octet r).2

def longstr (r : Reader) : CString × Reader :=
  rawStr (long r).1 (long r).2

/-- `result.insert`. -/
def insert (t : FieldTable091) (key : CString) (value : AmqpFieldValue091) : FieldTable091 :=
  if t.any (·.1 = key) then t.map fun entry => if entry.1 = key then (key, value) else entry
  else t ++ [(key, value)]

mutual

/-- `AmqpReader091.fieldValue`; `none` when fuel runs out. -/
def fieldValue : Nat → Reader → Option (AmqpFieldValue091 × Reader)
  | 0, _ => none
  | fuel + 1, r =>
      let tag := (octet r).1
      let r := (octet r).2
      if tag = 116 then some (.boolVal ((octet r).1 != 0), (octet r).2)
      else if tag = 73 then some (.int32Val (longSigned r).1, (longSigned r).2)
      else if tag = 76 then some (.int64Val (longlong r).1, (longlong r).2)
      else if tag = 83 then some (.strVal (longstr r).1, (longstr r).2)
      else if tag = 84 then some (.timestampVal (longlong r).1, (longlong r).2)
      else if tag = 70 then
        (tableLoop fuel ((long r).2.pos + (long r).1.toInt.toNat) [] (long r).2).map
          fun t => (.tableVal t.1, t.2)
      else if tag = 65 then
        (arrayLoop fuel ((long r).2.pos + (long r).1.toInt.toNat) [] (long r).2).map
          fun a => (.arrayVal a.1, a.2)
      else if tag = 86 then some (.voidVal, r)
      else some (.errorVal (literal "unknown field-value type: " ++ printInteger tag), r)

/-- The loop of `AmqpReader091.fieldTable`. -/
def tableLoop : Nat → Nat → FieldTable091 → Reader → Option (FieldTable091 × Reader)
  | 0, _, _, _ => none
  | fuel + 1, endPos, result, r =>
      if r.pos < endPos then
        if r.truncated then some (result, r)
        else
          (fieldValue fuel (shortstr r).2).bind fun value =>
            tableLoop fuel endPos (insert result (shortstr r).1 value.1) value.2
      else some (result, r)

/-- The loop of `AmqpReader091.fieldArray`. -/
def arrayLoop : Nat → Nat → List AmqpFieldValue091 → Reader →
    Option (List AmqpFieldValue091 × Reader)
  | 0, _, _, _ => none
  | fuel + 1, endPos, result, r =>
      if r.pos < endPos then
        if r.truncated then some (result, r)
        else
          (fieldValue fuel r).bind fun value => arrayLoop fuel endPos (result ++ [value.1]) value.2
      else some (result, r)

end

/-- `AmqpReader091.fieldTable`. -/
def fieldTable (fuel : Nat) (r : Reader) : Option (FieldTable091 × Reader) :=
  tableLoop fuel ((long r).2.pos + (long r).1.toInt.toNat) [] (long r).2

end AmqpReader091

end Tinox.Amqp
