import Tinox.Amqp.Bytes
import Tinox.Data.Entries

/-!
# MessagePack

`Msgpack::encode` writes every value in the shortest form that holds it, and `Msgpack::decode`
reads with a cursor that remembers that it has failed.
-/

namespace Tinox.Formats.Msgpack

open Tinox.Net Tinox.Runtime Tinox.Amqp

/-- `MsgpackValue`: its kind with the field that the kind selects.  A map is the list of its
entries. -/
inductive MsgpackValue (F : Type) where
  | null
  | bool (boolValue : Bool)
  | int (intValue : Int64)
  | float (floatValue : F)
  | string (stringValue : CString)
  | array (arrayValue : List (MsgpackValue F))
  | object (objectValue : List (CString × MsgpackValue F))

/-- What the code takes from the runtime: the bits of floats, and an order in which `Map.keys`
lists the keys of a map. -/
structure MsgpackRuntime (F : Type) where
  msgpackFloat64ToBits : F → Int64
  msgpackBitsToFloat64 : Int64 → F
  msgpackBitsToFloat32 : Int64 → F
  keys : List CString → List CString
  bitsToFloat_toBits : ∀ f, msgpackBitsToFloat64 (msgpackFloat64ToBits f) = f
  keys_perm : ∀ names, (keys names).Perm names

variable {F : Type} (runtime : MsgpackRuntime F)

/-- `Msgpack::pushBE`: the low bytes of a number, the highest first. -/
def pushBE (v : Int64) : Nat → List Int64
  | 0 => []
  | n + 1 => byteAt v (Int64.ofNat (n * 8)) :: pushBE v n

/-- `Msgpack::encodeInt`. -/
def encodeInt (n : Int64) : List Int64 :=
  if 0 ≤ n ∧ n ≤ 127 then [n]
  else if -32 ≤ n ∧ n < 0 then [n &&& 0xff]
  else if -128 ≤ n ∧ n ≤ 127 then [0xd0, n &&& 0xff]
  else if -32768 ≤ n ∧ n ≤ 32767 then 0xd1 :: pushBE n 2
  else if -2147483648 ≤ n ∧ n ≤ 2147483647 then 0xd2 :: pushBE n 4
  else 0xd3 :: pushBE n 8

/-- `Msgpack::encodeFloat`. -/
def encodeFloat (f : F) : List Int64 :=
  0xcb :: pushBE (runtime.msgpackFloat64ToBits f) 8

/-- What is in front of the bytes of a string. -/
def stringHeader (len : Int64) : List Int64 :=
  if len < 32 then [0xa0 ||| len]
  else if len ≤ 255 then [0xd9, len]
  else if len ≤ 65535 then 0xda :: pushBE len 2
  else 0xdb :: pushBE len 4

/-- `Msgpack::encodeString`. -/
def encodeString (s : CString) : List Int64 :=
  stringHeader (Int64.ofNat s.length) ++ (List.range s.length).map (charCodeAt s)

/-- What is in front of the items of an array or the entries of a map: a count of four, sixteen or
32 bits. -/
def countHeader (fix wide wider : Int64) (len : Int64) : List Int64 :=
  if len < 16 then [fix ||| len]
  else if len ≤ 65535 then wide :: pushBE len 2
  else wider :: pushBE len 4

/-- `Msgpack::encodeArray`, with what its items are encoded into. -/
def encodeArray (items : List (List Int64)) : List Int64 :=
  countHeader 0x90 0xdc 0xdd (Int64.ofNat items.length) ++ items.flatten

/-- `Msgpack::encodeMap`, with what its values are encoded into. -/
def encodeMap (m : List (CString × List Int64)) : List Int64 :=
  let keys := runtime.keys (m.map Prod.fst)
  countHeader 0x80 0xde 0xdf (Int64.ofNat keys.length) ++
    keys.flatMap fun key => encodeString key ++ (m.lookup key).getD []

mutual

/-- `Msgpack::encodeInto`: the bytes that it pushes. -/
def encodeInto : MsgpackValue F → List Int64
  | .null => [0xc0]
  | .bool b => [if b then 0xc3 else 0xc2]
  | .int n => encodeInt n
  | .float f => encodeFloat runtime f
  | .string s => encodeString s
  | .array items => encodeArray (encodeItems items)
  | .object entries => encodeMap runtime (encodeEntries entries)

def encodeItems : List (MsgpackValue F) → List (List Int64)
  | [] => []
  | item :: items => encodeInto item :: encodeItems items

def encodeEntries : List (CString × MsgpackValue F) → List (CString × List Int64)
  | [] => []
  | (key, value) :: entries => (key, encodeInto value) :: encodeEntries entries

end

/-- `Msgpack::encode`. -/
def encode (value : MsgpackValue F) : List Int64 :=
  encodeInto runtime value

/-- `MsgpackReader`: the bytes from the cursor on, its position, and whether a read has failed. -/
structure MsgpackReader where
  bytes : List Int64
  pos : Nat
  failed : Bool
  deriving DecidableEq

namespace MsgpackReader

def new (bytes : List Int64) : MsgpackReader :=
  ⟨bytes, 0, false⟩

def remaining (r : MsgpackReader) : Nat :=
  r.bytes.length

def fail (r : MsgpackReader) : MsgpackReader :=
  { r with failed := true }

/-- `MsgpackReader.readByte`. -/
def readByte (r : MsgpackReader) : Int64 × MsgpackReader :=
  if r.failed then (0, r)
  else
    match r.bytes with
    | [] => (0, r.fail)
    | b :: bytes => (b, { r with bytes := bytes, pos := r.pos + 1 })

/-- The loop of `MsgpackReader.readBE`. -/
def readBELoop : Nat → Int64 → MsgpackReader → Int64 × MsgpackReader
  | 0, result, r => (result, r)
  | n + 1, result, r => readBELoop n ((result <<< 8) ||| r.readByte.1) r.readByte.2

/-- `MsgpackReader.readBE`. -/
def readBE (r : MsgpackReader) (n : Nat) : Int64 × MsgpackReader :=
  readBELoop n 0 r

/-- The loop of `Msgpack::decodeString`. -/
def readBytes : Nat → MsgpackReader → List Int64 × MsgpackReader
  | 0, r => ([], r)
  | n + 1, r => (r.readByte.1 :: (readBytes n r.readByte.2).1, (readBytes n r.readByte.2).2)

/-- A length that is declared but cannot be there. -/
def Rejects (r : MsgpackReader) (len : Int64) : Prop :=
  r.failed = true ∨ len < 0 ∨ r.remaining < len.toInt

instance (r : MsgpackReader) (len : Int64) : Decidable (r.Rejects len) :=
  inferInstanceAs (Decidable (_ ∨ _ ∨ _))

end MsgpackReader

/-- A value and the reader behind it; `none` when the nesting is deeper than the fuel. -/
abbrev Decoded (F : Type) : Type :=
  Option (MsgpackValue F × MsgpackReader)

/-- A value that is null and a reader that has failed. -/
def failure (r : MsgpackReader) : Decoded F :=
  some (.null, r.fail)

/-- `Msgpack::intResult`. -/
def intResult (read : Int64 × MsgpackReader) : Decoded F :=
  if read.2.failed then some (.null, read.2) else some (.int read.1, read.2)

/-- The two branches that read a float. -/
def floatResult (toFloat : Int64 → F) (read : Int64 × MsgpackReader) : Decoded F :=
  if read.2.failed then some (.null, read.2) else some (.float (toFloat read.1), read.2)

/-- `Msgpack::signExtend`. -/
def signExtend (byteWidth : Int64) (v : Int64) : Int64 :=
  let bits := byteWidth * 8
  let signBit := (1 : Int64) <<< (bits - 1)
  if v &&& signBit ≠ 0 then v - (signBit <<< 1) else v

/-- `Msgpack::decodeString`. -/
def decodeString (r : MsgpackReader) (len : Int64) : Decoded F :=
  if r.Rejects len then failure r
  else
    let bytes := r.readBytes len.toInt.toNat
    some (.string (tinoxBytesToString bytes.1), bytes.2)

/-- The loop of `Msgpack::decodeArray`, with what reads one item. -/
def decodeItems (decodeItem : MsgpackReader → Decoded F) :
    Nat → List (MsgpackValue F) → MsgpackReader → Decoded F
  | 0, items, r => some (.array items, r)
  | n + 1, items, r =>
      if r.failed then some (.null, r)
      else
        (decodeItem r).bind fun item => decodeItems decodeItem n (items ++ [item.1]) item.2

/-- `Msgpack::decodeArray`. -/
def decodeArray (decodeItem : MsgpackReader → Decoded F) (r : MsgpackReader) (len : Int64) :
    Decoded F :=
  if r.Rejects len then failure r
  else decodeItems decodeItem len.toInt.toNat [] r

/-- The loop of `Msgpack::decodeMap`, with what reads a key or a value. -/
def decodeEntries (decodeItem : MsgpackReader → Decoded F) :
    Nat → List (CString × MsgpackValue F) → MsgpackReader → Decoded F
  | 0, m, r => some (.object m, r)
  | n + 1, m, r =>
      if r.failed then some (.null, r)
      else
        (decodeItem r).bind fun keyValue =>
          (decodeItem keyValue.2).bind fun value =>
            match keyValue.1 with
            | .string key => decodeEntries decodeItem n (Entries.put m key value.1) value.2
            | _ => failure value.2

/-- `Msgpack::decodeMap`. -/
def decodeMap (decodeItem : MsgpackReader → Decoded F) (r : MsgpackReader) (len : Int64) :
    Decoded F :=
  if r.Rejects len then failure r
  else decodeEntries decodeItem len.toInt.toNat [] r

/-- `Msgpack::decodeValue` behind the tag, with what reads a part. -/
def decodeTagged (decodeItem : MsgpackReader → Decoded F) (tag : Int64) (r : MsgpackReader) :
    Decoded F :=
  let sized := fun (decode : MsgpackReader → Int64 → Decoded F) (n : Nat) =>
    decode (r.readBE n).2 (r.readBE n).1
  let signed := fun (n : Nat) (byteWidth : Int64) =>
    intResult (signExtend byteWidth (r.readBE n).1, (r.readBE n).2)
  if tag ≤ 0x7f then some (.int tag, r)
  else if 0xe0 ≤ tag then some (.int (tag - 256), r)
  else if 0x80 ≤ tag ∧ tag ≤ 0x8f then decodeMap decodeItem r (tag &&& 0x0f)
  else if 0x90 ≤ tag ∧ tag ≤ 0x9f then decodeArray decodeItem r (tag &&& 0x0f)
  else if 0xa0 ≤ tag ∧ tag ≤ 0xbf then decodeString r (tag &&& 0x1f)
  else if tag = 0xc0 then some (.null, r)
  else if tag = 0xc2 then some (.bool false, r)
  else if tag = 0xc3 then some (.bool true, r)
  else if tag = 0xca then floatResult runtime.msgpackBitsToFloat32 (r.readBE 4)
  else if tag = 0xcb then floatResult runtime.msgpackBitsToFloat64 (r.readBE 8)
  else if tag = 0xcc then intResult (r.readBE 1)
  else if tag = 0xcd then intResult (r.readBE 2)
  else if tag = 0xce then intResult (r.readBE 4)
  else if tag = 0xcf then intResult (r.readBE 8)
  else if tag = 0xd0 then signed 1 1
  else if tag = 0xd1 then signed 2 2
  else if tag = 0xd2 then signed 4 4
  else if tag = 0xd3 then intResult (r.readBE 8)
  else if tag = 0xd9 then sized decodeString 1
  else if tag = 0xda then sized decodeString 2
  else if tag = 0xdb then sized decodeString 4
  else if tag = 0xdc then sized (decodeArray decodeItem) 2
  else if tag = 0xdd then sized (decodeArray decodeItem) 4
  else if tag = 0xde then sized (decodeMap decodeItem) 2
  else if tag = 0xdf then sized (decodeMap decodeItem) 4
  -- the byte that is never used, byte strings and extensions
  else failure r

/-- `Msgpack::decodeValue`. -/
def decodeValue : Nat → MsgpackReader → Decoded F
  | 0, _ => none
  | fuel + 1, r =>
      let tag := r.readByte
      if tag.2.failed then some (.null, tag.2)
      else decodeTagged runtime (decodeValue fuel) tag.1 tag.2

/-- The reader of `Msgpack::decode` and what it reads: no value is nested deeper than its bytes. -/
def decodeReader (bytes : List Int64) : Decoded F :=
  decodeValue runtime (bytes.length + 1) (MsgpackReader.new bytes)

/-- `Msgpack::decode`. -/
def decode (bytes : List Int64) : Option (MsgpackValue F) :=
  (decodeReader runtime bytes).map Prod.fst

end Tinox.Formats.Msgpack
