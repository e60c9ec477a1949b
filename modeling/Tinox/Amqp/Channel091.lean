import Tinox.Amqp.Dispatcher
import Tinox.Amqp.RoundTrip091
import Tinox.Amqp.RoundTrip10
import Tinox.Amqp.TableBounds
import Tinox.Data.Pieces

/-!
# Channels of AMQP 0-9-1

`AmqpChannel091.publish` writes a message as a method frame, a header frame and body frames, and
`nextMessage` puts a message together from such frames.
-/

namespace Tinox.Amqp.Channels

open Tinox.Net Tinox.Runtime Dispatch

/-- `AmqpWriter091.short`. -/
def writeShort (w : AmqpWriter091) (v : Int64) : AmqpWriter091 :=
  w.push [byteAt v 8, v &&& 0xFF]

/-- `AmqpReader091.short`. -/
def short (r : Reader) : Int64 × Reader :=
  let hi := AmqpReader091.octet r
  let lo := AmqpReader091.octet hi.2
  ((hi.1 <<< 8) ||| lo.1, lo.2)

/-- `Amqp091.writeFrame`: what it writes to the connection. -/
def writeFrame (frameType chanId : Int64) (payload : List Int64) : List Int64 :=
  let w := writeShort (AmqpWriter091.new.octet frameType) chanId
  (((w.long (Int64.ofNat payload.length)).rawBytes payload).octet 0xCE).bytes

/-- `Amqp091.readFrame`. -/
def readFrame (conn : TinoxConn) : AmqpFrame091 × TinoxConn :=
  let bad : AmqpFrame091 := ⟨-1, 0, []⟩
  let hdr := httpConnReadN conn 7
  if hdr.1.length < 7 then (bad, hdr.2)
  else
    let byte := fun i => hdr.1.getD i 0
    let frameType := byte 0
    let chanId := ((byte 1 <<< 8) ||| byte 2).toInt.toNat
    let size := (byte 3 <<< 24) ||| (byte 4 <<< 16) ||| (byte 5 <<< 8) ||| byte 6
    if size < 0 ∨ 16777216 < size then (⟨-2, chanId, []⟩, hdr.2)
    else
      let raw := if 0 < size then httpConnReadN hdr.2 size else ([], hdr.2)
      if 0 < size ∧ Int64.ofNat raw.1.length < size then (bad, raw.2)
      else
        let last := httpConnReadN raw.2 1
        if last.1.length < 1 then (bad, last.2)
        else if last.1.getD 0 0 ≠ 0xCE then (⟨-2, chanId, []⟩, last.2)
        else (⟨frameType, chanId, raw.1⟩, last.2)

/-- `AmqpMethodFrame091`. -/
structure AmqpMethodFrame091 where
  classId : Int64
  methodId : Int64
  args : List Int64

/-- `Amqp091.encodeMethodPayload`. -/
def encodeMethodPayload (classId methodId : Int64) (args : List Int64) : List Int64 :=
  ((writeShort (writeShort AmqpWriter091.new classId) methodId).rawBytes args).bytes

/-- `Amqp091.decodeMethodPayload`. -/
def decodeMethodPayload (payload : List Int64) : AmqpMethodFrame091 :=
  let classId := short (.new payload)
  let methodId := short classId.2
  ⟨classId.1, methodId.1, (AmqpReader091.octets methodId.2.bytes.length methodId.2).1⟩

/-- `Amqp091.describeAndAckClose`: the message, and what is written. -/
def describeAndAckClose (chanId : Int64) (mf : AmqpMethodFrame091) (closeOkMethodId : Int64) :
    CString × List Int64 :=
  let replyCode := short (.new mf.args)
  let replyText := AmqpReader091.shortstr replyCode.2
  (literal "broker closed with code " ++ printInteger replyCode.1 ++ literal ": " ++ replyText.1,
    writeFrame 1 chanId (encodeMethodPayload mf.classId closeOkMethodId []))

/-- `AmqpChannel091`, without its connection and its inbox. -/
structure AmqpChannel091 where
  chanId : Int64
  frameMax : Int64
  errorMessage : CString
  confirmsEnabled : Bool
  lastDeliveryTag : Int64

/-- What `publish` returns, the channel behind it, and what each `writeFrame` wrote. -/
structure Published where
  tag : Int64
  channel : AmqpChannel091
  written : List (List Int64)

/-- The bytes of the body in one frame. -/
def chunkSize (frameMax : Int64) : Int64 :=
  if frameMax - 8 ≤ 0 then 4096 else frameMax - 8

theorem chunkSize_pos (frameMax : Int64) : 0 < (chunkSize frameMax).toInt.toNat := by
  rw [chunkSize]
  split
  · decide
  · rename_i positive
    rw [Int64.not_le, Int64.lt_iff_toInt_lt] at positive
    have isZero : (0 : Int64).toInt = 0 := rfl
    omega

/-- The loop of `publish` that writes the body. -/
def bodyLoop {size : Nat} (positive : 0 < size) (chanId : Int64) (body : List Int64) (offset : Nat) :
    List (List Int64) :=
  if offset < body.length then
    let stop := if body.length < offset + size then body.length else offset + size
    writeFrame 3 chanId ((body.take stop).drop offset) :: bodyLoop positive chanId body stop
  else []
termination_by body.length - offset
decreasing_by split <;> omega

/-- The writer of the arguments of `basic.publish`. -/
def publishArgs (exchange routingKey : CString) : AmqpWriter091 :=
  (((writeShort .new 0).shortstr exchange).shortstr routingKey).octet 0

/-- The property flags of a message and the writer of its properties. -/
def properties (contentType : CString) : Int64 × AmqpWriter091 :=
  let flags := if 0 < contentType.length then 0 ||| 32768 else 0
  let pw := if 0 < contentType.length then AmqpWriter091.new.shortstr contentType else .new
  (flags ||| 4096, pw.octet 2)

/-- The payload of the header frame. -/
def headerPayload (body : List Int64) (contentType : CString) : List Int64 :=
  let hw := ((writeShort (writeShort .new 60) 0).longlong (Int64.ofNat body.length))
  ((writeShort hw (properties contentType).1).rawBytes (properties contentType).2.bytes).bytes

/-- `AmqpChannel091.publish`. -/
def publish (c : AmqpChannel091) (exchange routingKey : CString) (body : List Int64)
    (contentType : CString) : Published :=
  let w := publishArgs exchange routingKey
  let notSent := fun msg : String => Published.mk 0 { c with errorMessage := literal msg } []
  if w.hasError then
    notSent "exchange/routing-key name too long (max 255 bytes, shortstr) -- basic.publish NOT sent"
  else if (properties contentType).2.hasError then
    notSent "content-type too long (max 255 bytes, shortstr) -- basic.publish NOT sent"
  else
    let tag := if c.confirmsEnabled then c.lastDeliveryTag + 1 else 0
    ⟨tag, if c.confirmsEnabled then { c with lastDeliveryTag := tag } else c,
      writeFrame 1 c.chanId (encodeMethodPayload 60 40 w.bytes) ::
        writeFrame 2 c.chanId (headerPayload body contentType) ::
        bodyLoop (chunkSize_pos c.frameMax) c.chanId body 0⟩

/-- `AmqpMessage091`. -/
structure AmqpMessage091 where
  deliveryTag : Int64
  exchange : CString
  routingKey : CString
  contentType : CString
  body : List Int64
  ok : Bool
  errorMessage : CString
  deriving DecidableEq

/-- The message of an error. -/
def AmqpMessage091.failed (errorMessage : CString) : AmqpMessage091 :=
  ⟨-1, [], [], [], [], false, errorMessage⟩

/-- `AmqpConfirmResult091`. -/
structure AmqpConfirmResult091 where
  deliveryTag : Int64
  multiple : Bool
  ack : Bool
  ok : Bool
  errorMessage : CString
  deriving DecidableEq

/-- What a call returns, the inbox behind it, and what it has written. -/
structure Received (α : Type) where
  result : α
  inbox : List AmqpFrame091
  written : List (List Int64)

/-- `hr.fieldTable()` where the table is not used: the reader behind it. -/
def skipTable (r : Reader) : Reader :=
  ((AmqpReader091.fieldTable (2 * left r + 1) r).map Prod.snd).getD r

/-- A property that is skipped when its bit is set. -/
def skip (flags bit : Int64) (read : Reader → Reader) (r : Reader) : Reader :=
  if flags &&& bit ≠ 0 then read r else r

/-- The properties behind the content type that a message may have, with their bits. -/
def otherProperties (flags : Int64) (r : Reader) : Reader :=
  let octet := fun r => (AmqpReader091.octet r).2
  let shortstr := fun r => (AmqpReader091.shortstr r).2
  let r := skip flags 16384 (fun r => (AmqpReader091.longstr r).2) r
  let r := skip flags 8192 skipTable r
  let r := skip flags 4096 octet r
  let r := skip flags 2048 octet r
  let r := skip flags 1024 shortstr r
  let r := skip flags 512 shortstr r
  let r := skip flags 256 shortstr r
  let r := skip flags 128 shortstr r
  let r := skip flags 64 (fun r => (AmqpReader091.longlong r).2) r
  let r := skip flags 32 shortstr r
  let r := skip flags 16 shortstr r
  let r := skip flags 8 shortstr r
  skip flags 4 shortstr r

/-- What is read of a content header. -/
structure ContentHeader where
  bodySize : Int64
  contentType : CString
  reader : Reader

/-- The part of `nextMessage` that reads the content header. -/
def readHeader (payload : List Int64) : ContentHeader :=
  let hr := (short (short (.new payload)).2).2
  let bodySize := AmqpReader091.longlong hr
  let flags := short bodySize.2
  let contentType :=
    if flags.1 &&& 32768 ≠ 0 then AmqpReader091.shortstr flags.2 else ([], flags.2)
  ⟨bodySize.1, contentType.1, otherProperties flags.1 contentType.2⟩

/-- What is read of the arguments of `basic.deliver`. -/
structure Deliver where
  deliveryTag : Int64
  exchange : CString
  routingKey : CString
  reader : Reader

/-- The part of `nextMessage` that reads the arguments of `basic.deliver`. -/
def readDeliver (args : List Int64) : Deliver :=
  let r := (AmqpReader091.shortstr (.new args)).2
  let deliveryTag := AmqpReader091.longlong r
  let exchange := AmqpReader091.shortstr (AmqpReader091.octet deliveryTag.2).2
  let routingKey := AmqpReader091.shortstr exchange.2
  ⟨deliveryTag.1, exchange.1, routingKey.1, routingKey.2⟩

/-- The loop of `nextMessage` over the body frames: the body, or the error; `none` while it waits
for a frame. -/
def collect (bodySize : Int64) (body : List Int64) :
    List AmqpFrame091 → Option (Except CString (List Int64) × List AmqpFrame091)
  | [] => if Int64.ofNat body.length < bodySize then none else some (.ok body, [])
  | f3 :: inbox =>
      if Int64.ofNat body.length < bodySize then
        if f3.frameType ≠ 3 then
          some (.error (literal "expected body frame (frameType=" ++ printInteger f3.frameType ++
            literal ")"), inbox)
        else collect bodySize (body ++ f3.payload) inbox
      else some (.ok body, f3 :: inbox)

/-- `AmqpChannel091.nextMessage`; `none` while it waits for a frame. -/
def nextMessage (c : AmqpChannel091) : List AmqpFrame091 → Option (Received AmqpMessage091)
  | [] => none
  | f1 :: inbox =>
      let mf := decodeMethodPayload f1.payload
      if f1.frameType ≠ 1 then
        some ⟨.failed (literal "expected basic.deliver (frameType=" ++ printInteger f1.frameType ++
          literal ")"), inbox, []⟩
      else if mf.classId = 20 ∧ mf.methodId = 40 then
        let close := describeAndAckClose c.chanId mf 41
        some ⟨.failed close.1, inbox, [close.2]⟩
      else if mf.classId ≠ 60 ∨ mf.methodId ≠ 60 then
        some ⟨.failed (literal "expected basic.deliver, got class=" ++ printInteger mf.classId ++
          literal " method=" ++ printInteger mf.methodId), inbox, []⟩
      else
        let deliver := readDeliver mf.args
        match inbox with
        | [] => none
        | f2 :: inbox =>
            if f2.frameType ≠ 2 then
              some ⟨.failed (literal "expected content-header frame (frameType=" ++
                printInteger f2.frameType ++ literal ")"), inbox, []⟩
            else
              let header := readHeader f2.payload
              (collect header.bodySize [] inbox).map fun collected =>
                match collected.1 with
                | .error msg => ⟨.failed msg, collected.2, []⟩
                | .ok body => ⟨⟨deliver.deliveryTag, deliver.exchange, deliver.routingKey,
                    header.contentType, body, true, []⟩, collected.2, []⟩

/-- `AmqpChannel091.waitForConfirm`; `none` while it waits for a frame. -/
def waitForConfirm (c : AmqpChannel091) :
    List AmqpFrame091 → Option (Received AmqpConfirmResult091)
  | [] => none
  | f :: inbox =>
      let failed := fun msg : CString => AmqpConfirmResult091.mk (-1) false false false msg
      let mf := decodeMethodPayload f.payload
      if f.frameType ≠ 1 then
        some ⟨failed (literal "expected basic.ack/basic.nack (frameType=" ++
          printInteger f.frameType ++ literal ")"), inbox, []⟩
      else if mf.classId = 20 ∧ mf.methodId = 40 then
        let close := describeAndAckClose c.chanId mf 41
        some ⟨failed close.1, inbox, [close.2]⟩
      else if mf.classId ≠ 60 ∨ mf.methodId ≠ 80 ∧ mf.methodId ≠ 120 then
        some ⟨failed (literal "expected basic.ack/basic.nack, got class=" ++
          printInteger mf.classId ++ literal " method=" ++ printInteger mf.methodId), inbox, []⟩
      else
        let deliveryTag := AmqpReader091.longlong (.new mf.args)
        let bits := AmqpReader091.octet deliveryTag.2
        some ⟨⟨deliveryTag.1, bits.1 &&& 1 != 0, mf.methodId == 80, true, []⟩, inbox, []⟩

end Tinox.Amqp.Channels
