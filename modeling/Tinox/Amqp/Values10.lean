import Tinox.Amqp.Bytes
import Tinox.Runtime.JsonWriter

/-!
# AMQP 1.0 values

`Amqp10Writer.writeValue` writes every value with its widest format code, and
`Amqp10Reader.readValue` reads what the next format code says.
-/

namespace Tinox.Amqp

open Tinox.Net Tinox.Runtime

/-- `Amqp10Value`; a described value has its descriptor and its value in place. -/
inductive Amqp10Value where
  | nullVal
  | boolVal (b : Bool)
  | uByteVal (n : Int64)
  | uShortVal (n : Int64)
  | uIntVal (n : Int64)
  | uLongVal (n : Int64)
  | byteVal (n : Int64)
  | shortVal (n : Int64)
  | intVal (n : Int64)
  | longVal (n : Int64)
  | charVal (n : Int64)
  | timestampVal (n : Int64)
  | uuidVal (bytes : List Int64)
  | binaryVal (bytes : List Int64)
  | strVal (s : CString)
  | symbolVal (s : CString)
  | listVal (items : List Amqp10Value)
  | mapVal (pairs : List Amqp10Value)
  | describedVal (descriptor : Int64) (value : Amqp10Value)
  | errorVal (msg : CString)

namespace Amqp10Writer

def pushU8 (v : Int64) : List Int64 :=
  [v &&& 0xFF]

def pushU16 (v : Int64) : List Int64 :=
  [byteAt v 8, v &&& 0xFF]

def pushU32 (v : Int64) : List Int64 :=
  fourBytes v

def pushU64 (v : Int64) : List Int64 :=
  eightBytes v

def pushRawStr (s : CString) : List Int64 :=
  stringBytes s

def pushRawBytes (data : List Int64) : List Int64 :=
  lowBytes data

/-- The headers of lists and maps: format code, size and count. -/
def compound (code : Int64) (count : Nat) (inner : List Int64) : List Int64 :=
  pushU8 code ++ pushU32 (4 + Int64.ofNat inner.length) ++ pushU32 (Int64.ofNat count) ++
    pushRawBytes inner

/-- A string with its format code and its length. -/
def text (code : Int64) (s : CString) : List Int64 :=
  pushU8 code ++ pushU32 (Int64.ofNat s.length) ++ pushRawStr s

mutual

/-- `Amqp10Writer.writeValue`: the bytes that it appends. -/
def writeValue : Amqp10Value → List Int64
  | .nullVal => pushU8 0x40
  | .boolVal b => pushU8 0x56 ++ (if b then pushU8 1 else pushU8 0)
  | .uByteVal n => pushU8 0x50 ++ pushU8 n
  | .uShortVal n => pushU8 0x60 ++ pushU16 n
  | .uIntVal n => pushU8 0x70 ++ pushU32 n
  | .uLongVal n => pushU8 0x80 ++ pushU64 n
  | .byteVal n => pushU8 0x51 ++ pushU8 n
  | .shortVal n => pushU8 0x61 ++ pushU16 n
  | .intVal n => pushU8 0x71 ++ pushU32 n
  | .longVal n => pushU8 0x81 ++ pushU64 n
  | .charVal n => pushU8 0x73 ++ pushU32 n
  | .timestampVal n => pushU8 0x83 ++ pushU64 n
  | .uuidVal bytes => pushU8 0x98 ++ pushRawBytes bytes
  | .binaryVal bytes => pushU8 0xb0 ++ pushU32 (Int64.ofNat bytes.length) ++ pushRawBytes bytes
  | .strVal s => text 0xb1 s
  | .symbolVal s => text 0xb3 s
  | .listVal items => compound 0xd0 items.length (writeValues items)
  | .mapVal pairs => compound 0xd1 pairs.length (writeValues pairs)
  | .describedVal descriptor value =>
      pushU8 0x00 ++ pushU8 0x53 ++ pushU8 descriptor ++ writeValue value
  | .errorVal _ => pushU8 0x40

/-- The inner writer of lists and maps. -/
def writeValues : List Amqp10Value → List Int64
  | [] => []
  | item :: items => writeValue item ++ writeValues items

end

end Amqp10Writer

namespace Amqp10Reader

def readU8 (r : Reader) : Int64 × Reader :=
  readByte r

def readU16 (r : Reader) : Int64 × Reader :=
  let hi := readU8 r
  let lo := readU8 hi.2
  ((hi.1 <<< 8) ||| lo.1, lo.2)

def readU32 (r : Reader) : Int64 × Reader :=
  readNumber 4 0 r

def readU64 (r : Reader) : Int64 × Reader :=
  readNumber 8 0 r

def toSigned8 (v : Int64) : Int64 :=
  if 128 ≤ v then v - 256 else v

def toSigned16 (v : Int64) : Int64 :=
  if 32768 ≤ v then v - 65536 else v

def toSigned32 (v : Int64) : Int64 :=
  if 2147483648 ≤ v then v - 4294967296 else v

/-- The loops of `readRawStr` and `readRawBytes`. -/
def readBytesLoop : Nat → Reader → List Int64 × Reader
  | 0, r => ([], r)
  | n + 1, r =>
      if r.truncated then ([], r)
      else
        let byte := readU8 r
        let rest := readBytesLoop n byte.2
        (byte.1 :: rest.1, rest.2)

def readRawStr (n : Int64) (r : Reader) : CString × Reader :=
  let bytes := readBytesLoop n.toInt.toNat r
  (tinoxBytesToString bytes.1, bytes.2)

def readRawBytes (n : Int64) (r : Reader) : List Int64 × Reader :=
  readBytesLoop n.toInt.toNat r

/-- The loops of `readList`, `readMap` and `readArray`, with what reads one element. -/
def readItems (readItem : Reader → Option (Amqp10Value × Reader)) :
    Nat → Reader → Option (List Amqp10Value × Reader)
  | 0, r => some ([], r)
  | count + 1, r =>
      if r.truncated then some ([], r)
      else
        (readItem r).bind fun item =>
          (readItems readItem count item.2).map fun rest => (item.1 :: rest.1, rest.2)

/-- `readDescribed`, with what reads one value. -/
def readDescribed (readItem : Reader → Option (Amqp10Value × Reader)) (r : Reader) :
    Option (Amqp10Value × Reader) :=
  (readItem r).bind fun descVal =>
    (readItem descVal.2).map fun inner =>
      match descVal.1 with
      | .uByteVal n | .uShortVal n | .uIntVal n | .uLongVal n => (.describedVal n inner.1, inner.2)
      | _ => (.errorVal (literal "described type with a non-numeric descriptor (not supported in v1)"),
          inner.2)

/-- A value that has been read, under its constructor. -/
def valueAs {α : Type} (make : α → Amqp10Value) (read : α × Reader) : Option (Amqp10Value × Reader) :=
  some (make read.1, read.2)

/-- `Amqp10Reader.readValueOfCode`; `none` when the nesting is deeper than the fuel. -/
def readValueOfCode : Nat → Int64 → Reader → Option (Amqp10Value × Reader)
  | 0, _, _ => none
  | fuel + 1, code, r =>
      let readValue := fun r : Reader => readValueOfCode fuel (readU8 r).1 (readU8 r).2
      let short := fun read : Int64 → Reader → Option (Amqp10Value × Reader) =>
        read (readU8 r).1 (readU8 r).2
      let long := fun read : Int64 → Reader → Option (Amqp10Value × Reader) =>
        read (readU32 r).1 (readU32 r).2
      let readList := fun (count : Int64) (r : Reader) =>
        (readItems readValue count.toInt.toNat r).map fun items => (.listVal items.1, items.2)
      let readMap := fun (count : Int64) (r : Reader) =>
        (readItems readValue count.toInt.toNat r).map fun pairs => (.mapVal pairs.1, pairs.2)
      let readArray := fun (count : Int64) (r : Reader) =>
        let elementCode := readU8 r
        (readItems (readValueOfCode fuel elementCode.1) count.toInt.toNat elementCode.2).map
          fun items => (.listVal items.1, items.2)
      let failed := fun (msg : String) (r : Reader) => some (.errorVal (literal msg), r)
      if r.truncated then failed "truncated: unexpected end of input" r
      else if code = 0x40 then some (.nullVal, r)
      else if code = 0x41 then some (.boolVal true, r)
      else if code = 0x42 then some (.boolVal false, r)
      else if code = 0x56 then valueAs (fun b : Int64 => .boolVal (b != 0)) (readU8 r)
      else if code = 0x50 then valueAs .uByteVal (readU8 r)
      else if code = 0x60 then valueAs .uShortVal (readU16 r)
      else if code = 0x70 then valueAs .uIntVal (readU32 r)
      else if code = 0x52 then valueAs .uIntVal (readU8 r)
      else if code = 0x43 then some (.uIntVal 0, r)
      else if code = 0x80 then valueAs .uLongVal (readU64 r)
      else if code = 0x53 then valueAs .uLongVal (readU8 r)
      else if code = 0x44 then some (.uLongVal 0, r)
      else if code = 0x51 then valueAs (fun n => .byteVal (toSigned8 n)) (readU8 r)
      else if code = 0x61 then valueAs (fun n => .shortVal (toSigned16 n)) (readU16 r)
      else if code = 0x71 then valueAs (fun n => .intVal (toSigned32 n)) (readU32 r)
      else if code = 0x54 then valueAs (fun n => .intVal (toSigned8 n)) (readU8 r)
      else if code = 0x81 then valueAs .longVal (readU64 r)
      else if code = 0x55 then valueAs (fun n => .longVal (toSigned8 n)) (readU8 r)
      else if code = 0x73 then valueAs .charVal (readU32 r)
      else if code = 0x83 then valueAs .timestampVal (readU64 r)
      else if code = 0x98 then valueAs .uuidVal (readRawBytes 16 r)
      else if code = 0xa0 then short fun n r => valueAs .binaryVal (readRawBytes n r)
      else if code = 0xb0 then long fun n r => valueAs .binaryVal (readRawBytes n r)
      else if code = 0xa1 then short fun n r => valueAs .strVal (readRawStr n r)
      else if code = 0xb1 then long fun n r => valueAs .strVal (readRawStr n r)
      else if code = 0xa3 then short fun n r => valueAs .symbolVal (readRawStr n r)
      else if code = 0xb3 then long fun n r => valueAs .symbolVal (readRawStr n r)
      else if code = 0x45 then some (.listVal [], r)
      else if code = 0xc0 then readList (readU8 (readU8 r).2).1 (readU8 (readU8 r).2).2
      else if code = 0xd0 then readList (readU32 (readU32 r).2).1 (readU32 (readU32 r).2).2
      else if code = 0xc1 then readMap (readU8 (readU8 r).2).1 (readU8 (readU8 r).2).2
      else if code = 0xd1 then readMap (readU32 (readU32 r).2).1 (readU32 (readU32 r).2).2
      else if code = 0xe0 then readArray (readU8 (readU8 r).2).1 (readU8 (readU8 r).2).2
      else if code = 0xf0 then readArray (readU32 (readU32 r).2).1 (readU32 (readU32 r).2).2
      else if code = 0x00 then readDescribed readValue r
      else if code = 0x72 then failed "float not supported in v1" (readU32 r).2
      else if code = 0x82 then failed "double not supported in v1" (readU64 r).2
      else if code = 0x74 then failed "decimal32 not supported in v1" (readU32 r).2
      else if code = 0x84 then failed "decimal64 not supported in v1" (readU64 r).2
      else if code = 0x94 then failed "decimal128 not supported in v1" (readRawBytes 16 r).2
      else some (.errorVal (literal "unknown format code: " ++ printInteger code), r)

/-- `Amqp10Reader.readValue`. -/
def readValue (fuel : Nat) (r : Reader) : Option (Amqp10Value × Reader) :=
  readValueOfCode fuel (readU8 r).1 (readU8 r).2

end Amqp10Reader

end Tinox.Amqp
