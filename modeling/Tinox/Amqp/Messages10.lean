import Tinox.Amqp.Links
import Tinox.Amqp.ValueBounds

/-!
# Messages of AMQP 1.0 links

`Amqp10Link.publishCore` sends a message in one or more transfer frames; `nextMessage` reads the
message of a single one.
-/

namespace Tinox.Amqp.Links

open Tinox.Net Tinox.Runtime Amqp10Writer Amqp10Reader

/-- `Amqp10::writeFrame`: what it writes to the connection. -/
def writeFrame (frameType chanId : Int64) (body : List Int64) : List Int64 :=
  pushU32 (8 + Int64.ofNat body.length) ++ pushU8 2 ++ pushU8 frameType ++ pushU16 chanId ++
    pushRawBytes body

/-- `httpConnReadN` where a length that is not positive reads nothing, and whether it came up
short. -/
def readPart (conn : TinoxConn) (n : Int64) : Option (List Int64) × TinoxConn :=
  if 0 < n then
    let raw := httpConnReadN conn n
    (if Int64.ofNat raw.1.length < n then none else some raw.1, raw.2)
  else (some [], conn)

/-- The part of `readFrame` behind the fixed header. -/
def readRest (size doff frameType chanId : Int64) (conn : TinoxConn) : Amqp10Frame × TinoxConn :=
  if size < 8 ∨ doff < 2 then (⟨-2, chanId, []⟩, conn)
  else
    let headerBytes := doff * 4
    if size < headerBytes then (⟨-2, chanId, []⟩, conn)
    else
      let ext := readPart conn (headerBytes - 8)
      if ext.1 = none then (⟨-1, 0, []⟩, ext.2)
      else
        let bodyBytes := size - headerBytes
        if 16777216 < bodyBytes then (⟨-2, chanId, []⟩, ext.2)
        else
          let raw := readPart ext.2 bodyBytes
          match raw.1 with
          | none => (⟨-1, 0, []⟩, raw.2)
          | some body => (⟨frameType, chanId, body⟩, raw.2)

/-- `Amqp10::readFrame`. -/
def readFrame (conn : TinoxConn) : Amqp10Frame × TinoxConn :=
  let hdr := httpConnReadN conn 8
  if hdr.1.length < 8 then (⟨-1, 0, []⟩, hdr.2)
  else
    let byte := fun i => hdr.1.getD i 0
    readRest ((byte 0 <<< 24) ||| (byte 1 <<< 16) ||| (byte 2 <<< 8) ||| byte 3) (byte 4) (byte 5)
      ((byte 6 <<< 8) ||| byte 7) hdr.2

theorem readPart_le (conn : TinoxConn) (n : Int64) :
    (readPart conn n).2.incoming.flatten.length ≤ conn.incoming.flatten.length := by
  have all := length_httpConnReadN conn n
  rw [readPart]
  split
  · dsimp only
    omega
  · exact Nat.le_refl _

theorem readRest_le (size doff frameType chanId : Int64) (conn : TinoxConn) :
    (readRest size doff frameType chanId conn).2.incoming.flatten.length ≤
      conn.incoming.flatten.length := by
  have extended := readPart_le conn (doff * 4 - 8)
  have body := readPart_le (readPart conn (doff * 4 - 8)).2 (size - doff * 4)
  rw [readRest]
  split
  · exact Nat.le_refl _
  dsimp only
  split
  · exact Nat.le_refl _
  split
  · exact extended
  split
  · exact extended
  split <;> exact Nat.le_trans body extended

theorem readFrame_lt (conn : TinoxConn) (isFrame : ¬ (readFrame conn).1.frameType < 0) :
    (readFrame conn).2.incoming.flatten.length < conn.incoming.flatten.length := by
  have all := length_httpConnReadN conn 8
  rw [readFrame] at isFrame ⊢
  dsimp only at isFrame ⊢
  split
  · rename_i atEnd
    rw [if_pos atEnd] at isFrame
    exact absurd (by decide : (-1 : Int64) < 0) isFrame
  · exact Nat.lt_of_le_of_lt (readRest_le _ _ _ _ _) (by omega)

/-- `Amqp10::readFrameSkipHeartbeats`. -/
def readFrameSkipHeartbeats (conn : TinoxConn) : Amqp10Frame × TinoxConn :=
  if _isEnd : (readFrame conn).1.frameType < 0 then readFrame conn
  else if 0 < (readFrame conn).1.body.length then readFrame conn
  else readFrameSkipHeartbeats (readFrame conn).2
termination_by conn.incoming.flatten.length
decreasing_by exact readFrame_lt conn _isEnd

/-- What one round of the loop of `publishCore` sends. -/
structure Part where
  more : Bool
  chunk : List Int64
  deriving DecidableEq

/-- The loop of `publishCore`. -/
def transferLoop {maxBody : Nat} (positive : 0 < maxBody) (msgBytes : List Int64) (offset : Nat)
    (isFirst : Bool) : List Part :=
  if offset < msgBytes.length ∨ isFirst = true then
    let remaining := msgBytes.length - offset
    let chunkSize := if maxBody < remaining then maxBody else remaining
    ⟨offset + chunkSize < msgBytes.length, (msgBytes.drop offset).take chunkSize⟩ ::
      transferLoop positive msgBytes (offset + chunkSize) false
  else []
termination_by msgBytes.length - offset + (if isFirst then 1 else 0)
decreasing_by
  rename_i goesOn
  rw [if_neg id]
  rcases goesOn with inside | first
  · split <;> split <;> omega
  · rw [if_pos first]
    split <;> omega

theorem maxBodyPerFrame_pos (session : Amqp10Session) : 0 < maxBodyPerFrame session := by
  rw [maxBodyPerFrame]
  split <;> omega

/-- The frame of one round. -/
def Part.frame (session : Amqp10Session) (link : Amqp10Link) (txnState : Amqp10Value) (part : Part) :
    List Int64 :=
  let deliveryTag := deliveryTagBytes (Int64.ofNat link.deliveryCount)
  writeFrame 0 session.chanId
    (encodePerformative 0x14 (transferFields link deliveryTag txnState part.more) ++ part.chunk)

/-- The rounds of `publishCore` on a link that has credit. -/
def publishParts (session : Amqp10Session) (publication : Publication) : List Part :=
  transferLoop (maxBodyPerFrame_pos session)
    (encodeMessageBody publication.body publication.contentType) 0 true

/-- `Amqp10Message`. -/
structure Amqp10Message where
  body : List Int64
  contentType : CString
  deliveryId : Int64
  ok : Bool
  errorMessage : CString
  deriving DecidableEq

/-- `Amqp10Reader.readValue` with fuel for what is left. -/
def readNext (r : Reader) : Amqp10Value × Reader :=
  (readValue (left r + 1) r).getD (.nullVal, r)

/-- What the sections of a message have given. -/
structure Sections where
  body : List Int64
  contentType : CString
  bodyFound : Bool

/-- What `nextMessage` takes from a section. -/
def Sections.add (s : Sections) : Amqp10Value → Sections
  | .describedVal descriptor value =>
      if descriptor = 0x75 then
        match value with
        | .binaryVal b => { s with body := b, bodyFound := true }
        | _ => s
      else if descriptor = 0x77 then
        match value with
        | .binaryVal b => { s with body := b, bodyFound := true }
        | .strVal text => { s with body := s.body ++ stringBytes text, bodyFound := true }
        | _ => s
      else if descriptor = 0x73 then
        match value with
        | .listVal propFields =>
            match (propFields[6]? : Option Amqp10Value) with
            | some (.symbolVal text) => { s with contentType := text }
            | _ => s
        | _ => s
      else s
  | _ => s

/-- The loop of `nextMessage` over the sections, each of which takes at least one byte. -/
def readSections : Nat → Reader → Sections → Sections × Reader
  | 0, mr, s => (s, mr)
  | rounds + 1, mr, s =>
      if 0 < mr.bytes.length then
        readSections rounds (readNext mr).2 (s.add (readNext mr).1)
      else (s, mr)

/-- The sections of a message. -/
def messageSections (restBytes : List Int64) : Sections × Reader :=
  readSections restBytes.length (.new restBytes) ⟨[], [], false⟩

/-- What a call of `nextMessage` returns, and the link and the connection behind it. -/
structure Received where
  message : Amqp10Message
  link : Amqp10Link
  conn : TinoxConn

/-- The descriptor and the fields that `nextMessage` takes from the value in front. -/
def performativeOf : Amqp10Value → Amqp10Performative
  | .describedVal descriptor (.listVal fields) => ⟨descriptor, fields⟩
  | _ => ⟨-1, []⟩

/-- The field of a transfer with its delivery-id. -/
def deliveryIdOf (fields : List Amqp10Value) : Int64 :=
  match (fields[1]? : Option Amqp10Value) with
  | some (.uIntVal n) => n
  | _ => -1

/-- The handle of a transfer that is for another link. -/
def wrongHandle (link : Amqp10Link) (fields : List Amqp10Value) : Option Int64 :=
  match (fields[0]? : Option Amqp10Value) with
  | some (.uIntVal fh) => if fh ≠ Int64.ofNat link.handle then some fh else none
  | _ => none

/-- The flag of a transfer that goes on in further frames. -/
def goesOn (fields : List Amqp10Value) : Bool :=
  match (fields[5]? : Option Amqp10Value) with
  | some (.boolVal more) => more
  | _ => false

/-- The rest of a message that names an issue. -/
def noDispatcher : CString :=
  literal ") " ++ [0xE2, 0x80, 0x94] ++ literal " no frame dispatcher in v1, see issue 76"

/-- `Amqp10Link.nextMessage` behind `readFrameSkipHeartbeats`: the message. -/
def messageOf (session : Amqp10Session) (link : Amqp10Link) (f : Amqp10Frame) : Amqp10Message :=
  if f.frameType ≠ 0 then
    ⟨[], [], -1, false,
      literal "expected AMQP frame (type=0), got frameType=" ++ printInteger f.frameType⟩
  else if f.chanId ≠ session.chanId then
    ⟨[], [], -1, false,
      literal "frame received on the wrong channel " ++ printInteger f.chanId ++
        literal " (expected: " ++ printInteger session.chanId ++ noDispatcher⟩
  else
    let v := readNext (.new f.body)
    let p := performativeOf v.1
    if p.descriptor ≠ 0x14 then
      ⟨[], [], -1, false,
        literal "expected transfer (0x14), got descriptor=" ++ printInteger p.descriptor⟩
    else
      match wrongHandle link p.fields with
      | some fh =>
          ⟨[], [], -1, false,
            literal "transfer received for the wrong link handle " ++ printInteger fh ++
              literal " (expected: " ++ printInteger (Int64.ofNat link.handle) ++ noDispatcher⟩
      | none =>
          let deliveryId := deliveryIdOf p.fields
          if goesOn p.fields = true then
            ⟨[], [], deliveryId, false,
              literal "multi-frame transfer (more=true) is not reassembled in v1"⟩
          else
            let restBytes := (readRawBytes (Int64.ofNat v.2.bytes.length) v.2).1
            let s := (messageSections restBytes).1
            if s.bodyFound = false then
              ⟨[], s.contentType, deliveryId, false,
                literal "no recognized body section (data/amqp-value) found in the transfer"⟩
            else ⟨s.body, s.contentType, deliveryId, true, []⟩

/-- `Amqp10Link.nextMessage`. -/
def nextMessage (session : Amqp10Session) (link : Amqp10Link) (conn : TinoxConn) : Received :=
  let f := readFrameSkipHeartbeats conn
  let message := messageOf session link f.1
  ⟨message,
    if message.ok = true then
      { link with deliveryCount := link.deliveryCount + 1, linkCredit := link.linkCredit - 1 }
    else link,
    f.2⟩

end Tinox.Amqp.Links
