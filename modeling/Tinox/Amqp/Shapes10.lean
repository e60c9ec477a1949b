import Tinox.Amqp.Cursors

/-!
# The shapes of AMQP 1.0 values

A format code says whether the reader takes a value as a whole, or reads further values: those of a
list or a map each with its own code, those of an array under one code, or a descriptor and what it
describes.
-/

namespace Tinox.Amqp

open Tinox.Net Tinox.Runtime

/-- What a format code and the bytes behind it ask for. -/
inductive Shape where
  | flat (v : Amqp10Value) (r : Reader)
  | items (make : List Amqp10Value → Amqp10Value) (count : Nat) (r : Reader)
  | elements (code : Int64) (count : Nat) (r : Reader)
  | described (r : Reader)

namespace Amqp10Reader

/-- The shape of a value, in the order in which `readValueOfCode` compares the codes. -/
def shape (code : Int64) (r : Reader) : Shape :=
  let u8 := readU8 r
  let u16 := readU16 r
  let u32 := readU32 r
  let u64 := readU64 r
  let raw := fun (n : Int64 × Reader) (make : List Int64 → Amqp10Value) =>
    Shape.flat (make (readRawBytes n.1 n.2).1) (readRawBytes n.1 n.2).2
  let text := fun (n : Int64 × Reader) (make : CString → Amqp10Value) =>
    Shape.flat (make (readRawStr n.1 n.2).1) (readRawStr n.1 n.2).2
  let small := readU8 u8.2
  let large := readU32 u32.2
  let elements := fun count : Int64 × Reader =>
    Shape.elements (readU8 count.2).1 count.1.toInt.toNat (readU8 count.2).2
  let failed := fun (msg : String) (r : Reader) => Shape.flat (.errorVal (literal msg)) r
  if r.truncated then failed "truncated: unexpected end of input" r
  else if code = 0x40 then .flat .nullVal r
  else if code = 0x41 then .flat (.boolVal true) r
  else if code = 0x42 then .flat (.boolVal false) r
  else if code = 0x56 then .flat (.boolVal (u8.1 != 0)) u8.2
  else if code = 0x50 then .flat (.uByteVal u8.1) u8.2
  else if code = 0x60 then .flat (.uShortVal u16.1) u16.2
  else if code = 0x70 then .flat (.uIntVal u32.1) u32.2
  else if code = 0x52 then .flat (.uIntVal u8.1) u8.2
  else if code = 0x43 then .flat (.uIntVal 0) r
  else if code = 0x80 then .flat (.uLongVal u64.1) u64.2
  else if code = 0x53 then .flat (.uLongVal u8.1) u8.2
  else if code = 0x44 then .flat (.uLongVal 0) r
  else if code = 0x51 then .flat (.byteVal (toSigned8 u8.1)) u8.2
  else if code = 0x61 then .flat (.shortVal (toSigned16 u16.1)) u16.2
  else if code = 0x71 then .flat (.intVal (toSigned32 u32.1)) u32.2
  else if code = 0x54 then .flat (.intVal (toSigned8 u8.1)) u8.2
  else if code = 0x81 then .flat (.longVal u64.1) u64.2
  else if code = 0x55 then .flat (.longVal (toSigned8 u8.1)) u8.2
  else if code = 0x73 then .flat (.charVal u32.1) u32.2
  else if code = 0x83 then .flat (.timestampVal u64.1) u64.2
  else if code = 0x98 then raw (16, r) .uuidVal
  else if code = 0xa0 then raw u8 .binaryVal
  else if code = 0xb0 then raw u32 .binaryVal
  else if code = 0xa1 then text u8 .strVal
  else if code = 0xb1 then text u32 .strVal
  else if code = 0xa3 then text u8 .symbolVal
  else if code = 0xb3 then text u32 .symbolVal
  else if code = 0x45 then .flat (.listVal []) r
  else if code = 0xc0 then .items .listVal small.1.toInt.toNat small.2
  else if code = 0xd0 then .items .listVal large.1.toInt.toNat large.2
  else if code = 0xc1 then .items .mapVal small.1.toInt.toNat small.2
  else if code = 0xd1 then .items .mapVal large.1.toInt.toNat large.2
  else if code = 0xe0 then elements small
  else if code = 0xf0 then elements large
  else if code = 0x00 then .described r
  else if code = 0x72 then failed "float not supported in v1" u32.2
  else if code = 0x82 then failed "double not supported in v1" u64.2
  else if code = 0x74 then failed "decimal32 not supported in v1" u32.2
  else if code = 0x84 then failed "decimal64 not supported in v1" u64.2
  else if code = 0x94 then failed "decimal128 not supported in v1" (readRawBytes 16 r).2
  else .flat (.errorVal (literal "unknown format code: " ++ printInteger code)) r

/-- What is read of a shape, with what reads a value and an element. -/
def readShape (readItem : Reader → Option (Amqp10Value × Reader))
    (readElement : Int64 → Reader → Option (Amqp10Value × Reader)) :
    Shape → Option (Amqp10Value × Reader)
  | .flat v r => some (v, r)
  | .items make count r =>
      (readItems readItem count r).map fun items => (make items.1, items.2)
  | .elements code count r =>
      (readItems (readElement code) count r).map fun items => (.listVal items.1, items.2)
  | .described r => readDescribed readItem r

theorem readValueOfCode_succ (fuel : Nat) (code : Int64) (r : Reader) :
    readValueOfCode (fuel + 1) code r =
      readShape (readValue fuel) (readValueOfCode fuel) (shape code r) := by
  rw [readValueOfCode, shape]
  simp only [apply_ite (readShape _ _)]
  rfl

/-- The codes of values that are told by their code alone. -/
def emptyCodes : List Int64 :=
  [0x40, 0x41, 0x42, 0x43, 0x44, 0x45]

/-- The codes behind which at least one byte is read. -/
def filledCodes : List Int64 :=
  [0x56, 0x50, 0x60, 0x70, 0x52, 0x80, 0x53, 0x51, 0x61, 0x71, 0x54, 0x81, 0x55, 0x73, 0x83, 0x98,
    0xa0, 0xb0, 0xa1, 0xb1, 0xa3, 0xb3, 0xc0, 0xd0, 0xc1, 0xd1, 0xe0, 0xf0, 0x00, 0x72, 0x82, 0x74,
    0x84, 0x94]

/-- A predicate on the cursors at which the items of a loop are read. -/
def EachItem (readItem : Reader → Option (Amqp10Value × Reader)) (p : Reader → Prop) :
    Nat → Reader → Prop
  | 0, _ => True
  | count + 1, r =>
      r.truncated = true ∨
        p r ∧ ∀ item, readItem r = some item → EachItem readItem p count item.2

/-- A predicate on every value that is read, at any depth: whether it is an element of an array, its
code, and the cursor behind the code. -/
def Throughout (p : Bool → Int64 → Reader → Prop) : Nat → Bool → Int64 → Reader → Prop
  | 0, _, _, _ => True
  | fuel + 1, isElement, code, r =>
      let ofValue := fun r : Reader => Throughout p fuel false (readU8 r).1 (readU8 r).2
      p isElement code r ∧
        match shape code r with
        | .flat _ _ => True
        | .items _ count r => EachItem (readValue fuel) ofValue count r
        | .elements code count r =>
            EachItem (readValueOfCode fuel code) (Throughout p fuel true code) count r
        | .described r => ofValue r ∧ ∀ desc, readValue fuel r = some desc → ofValue desc.2

end Amqp10Reader

end Tinox.Amqp
