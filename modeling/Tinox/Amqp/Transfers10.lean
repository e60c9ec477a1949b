import Tinox.Amqp.Framing091
import Tinox.Amqp.Messages10

/-!
# Transfers of AMQP 1.0 messages

The size of the pieces of a message rests on an estimate of what the performative in front of them
takes.  Without a transaction it takes less; with one it takes more.
-/

namespace Tinox.Amqp.Links

open Tinox.Net Tinox.Runtime Amqp10Writer Amqp10Reader

theorem chunks_transferLoop {maxBody : Nat} (positive : 0 < maxBody) (msgBytes : List Int64)
    (offset : Nat) (isFirst : Bool) (isMore : isFirst = true → offset < msgBytes.length) :
    (transferLoop positive msgBytes offset isFirst).map Part.chunk =
      Pieces.cut positive msgBytes offset := by
  fun_induction transferLoop positive msgBytes offset isFirst with
  | case1 offset isFirst inside remaining chunkSize ih =>
      have isInside : offset < msgBytes.length := by
        rcases inside with isInside | first
        · exact isInside
        · exact isMore first
      rw [Pieces.cut_of_lt positive isInside, List.map_cons, ih nofun]
      by_cases isLast : maxBody < remaining
      · have isSize : chunkSize = maxBody := dif_pos isLast
        rw [isSize]
      · have isSize : chunkSize = remaining := dif_neg isLast
        have isRemaining : remaining = msgBytes.length - offset := rfl
        have isWhole : (msgBytes.drop offset).take remaining = (msgBytes.drop offset).take maxBody := by
          rw [List.take_of_length_le (by rw [List.length_drop]),
            List.take_of_length_le (by rw [List.length_drop]; omega)]
        rw [isSize, isWhole, Pieces.cut_of_le positive (by omega),
          Pieces.cut_of_le positive (by omega)]
  | case2 offset isFirst atEnd =>
      rw [Pieces.cut_of_le positive (Nat.not_lt.mp fun inside => atEnd (.inl inside)), List.map_nil]

theorem more_transferLoop {maxBody : Nat} (positive : 0 < maxBody) (msgBytes : List Int64)
    (offset : Nat) (isFirst : Bool) (isInside : offset < msgBytes.length) :
    ∃ before last, transferLoop positive msgBytes offset isFirst = before ++ [last] ∧
      (∀ part ∈ before, part.more = true) ∧ last.more = false := by
  fun_induction transferLoop positive msgBytes offset isFirst with
  | case1 offset isFirst inside remaining chunkSize ih =>
      by_cases isMore : offset + chunkSize < msgBytes.length
      · rcases ih isMore with ⟨before, last, isRest, areMore, isLast⟩
        refine ⟨_ :: before, last, congrArg _ isRest, ?_, isLast⟩
        rw [List.forall_mem_cons]
        exact ⟨decide_eq_true isMore, areMore⟩
      · refine ⟨[], ⟨offset + chunkSize < msgBytes.length, (msgBytes.drop offset).take chunkSize⟩, ?_,
          nofun, decide_eq_false isMore⟩
        rw [transferLoop, if_neg]
        · rfl
        · rintro (inside | first)
          · exact isMore inside
          · exact nomatch first
  | case2 offset isFirst atEnd => exact absurd (.inl isInside) atEnd

theorem length_writeFrame (frameType chanId : Int64) (body : List Int64) :
    (writeFrame frameType chanId body).length = 8 + body.length := by
  simp [writeFrame, pushU32, pushU16, pushU8, pushRawBytes, fourBytes, lowBytes]
  omega

theorem length_encodeMessageBody (body : List Int64) (contentType : CString) :
    (encodeMessageBody body contentType).length = 31 + contentType.length + body.length := by
  simp [encodeMessageBody, writeValue, writeValues, compound, Amqp10Writer.text, pushU32, pushU8,
    pushRawBytes, pushRawStr, fourBytes, lowBytes, AmqpWriter091.length_stringBytes]
  omega

/-- The transactional state of a publication. -/
def transactionalState (txnId : List Int64) : Amqp10Value :=
  .describedVal 0x34 (.listVal [.binaryVal txnId, .nullVal])

theorem length_transfer_null (link : Amqp10Link) (n : Int64) (more : Bool) :
    (encodePerformative 0x14 (transferFields link (deliveryTagBytes n) .nullVal more)).length = 43 := by
  cases more <;>
    simp [encodePerformative, transferFields, deliveryTagBytes, writeValue, writeValues, compound,
      pushU32, pushU8, pushRawBytes, fourBytes, lowBytes]

theorem length_transfer_transactional (link : Amqp10Link) (n : Int64) (txnId : List Int64) (more : Bool) :
    (encodePerformative 0x14 (transferFields link (deliveryTagBytes n) (transactionalState txnId)
      more)).length = 60 + txnId.length := by
  cases more <;>
    simp [encodePerformative, transferFields, deliveryTagBytes, transactionalState, writeValue,
      writeValues, compound, pushU32, pushU8, pushRawBytes, fourBytes, lowBytes] <;> omega

/-- The number that four bytes carry. -/
def low (n : Int64) : Int64 :=
  Int64.ofNat (bits n % 2 ^ 32)

/-- The channel that the two bytes of a frame header carry. -/
def channelOf (chanId : Int64) : Int64 :=
  Int64.ofNat (bits chanId % 2 ^ 16)

variable {more : List UInt8} {frameType chanId : Int64} {body : List Int64}

theorem pushU32_low (n : Int64) : pushU32 (low n) = pushU32 n := by
  have isBits : bits (low n) = bits n % 2 ^ 32 := bits_ofNat (by omega)
  have same : BigEndian.digits 4 (bits n % 2 ^ 32) = BigEndian.digits 4 (bits n) := by
    simp only [BigEndian.digits, List.cons.injEq, and_true]
    omega
  rw [pushU32, pushU32, fourBytes_eq, fourBytes_eq, isBits, same]

theorem between_low (n : Int64) : Between 0 (2 ^ 32) (low n) := by
  have isInt : (low n).toInt = (bits n % 2 ^ 32 : Nat) := Int64.toInt_ofNat_of_lt (by omega)
  rw [Between, isInt]
  omega

theorem readPart_bytes (conn : TinoxConn) {data : List Int64} (areBytes : AreBytes data)
    (fits : data.length < 2 ^ 63) (isStream : conn.incoming.flatten = data.map lowByte ++ more) :
    ∃ later, readPart conn (Int64.ofNat data.length) = (some data, { conn with incoming := later }) ∧
      later.flatten = more := by
  have isZero : (0 : Int64) = Int64.ofNat 0 := rfl
  rw [readPart]
  split
  next positive =>
    rcases httpConnReadN_bytes conn areBytes fits isStream with ⟨later, isRead, isMore⟩
    refine ⟨later, ?_, isMore⟩
    rw [isRead]
    dsimp only
    rw [if_neg Int64.lt_irrefl]
  next isEmpty =>
    rw [isZero, ofNat_lt (by decide) fits, Nat.not_lt, Nat.le_zero_eq, List.length_eq_zero_iff] at isEmpty
    subst isEmpty
    exact ⟨conn.incoming, rfl, isStream⟩

theorem readFrame_header (conn : TinoxConn) (isType : Between 0 (2 ^ 8) frameType)
    (fits : 8 + body.length < 2 ^ 32)
    (isStream : conn.incoming.flatten = (writeFrame frameType chanId body).map lowByte ++ more) :
    ∃ later, readFrame conn = readRest (Int64.ofNat (8 + body.length)) 2 frameType (channelOf chanId)
        { conn with incoming := later } ∧
      later.flatten = (pushRawBytes body).map lowByte ++ more := by
  have isOctet : frameType &&& 0xFF = frameType := by
    have isLow := low_eq frameType
    rw [Nat.pow_zero, Nat.div_one] at isLow
    exact isLow.trans (unsigned_eq isType)
  have isShort : (byteAt chanId 8 <<< 8) ||| (chanId &&& 0xFF) = channelOf chanId :=
    congrArg Prod.fst (readU16_pushU16 chanId [] 0 false)
  have isSum : 8 + Int64.ofNat body.length = Int64.ofNat (8 + body.length) :=
    (Int64.ofNat_add 8 body.length).symm
  have isSize := shifted_fourBytes (Int64.ofNat (8 + body.length))
  have isLength : bits (Int64.ofNat (8 + body.length)) % 2 ^ 32 = 8 + body.length := by
    rw [bits_ofNat (by omega), Nat.mod_eq_of_lt fits]
  have isTwo : (2 : Int64) &&& 0xFF = 2 := by decide
  have areHeader : AreBytes (pushU32 (Int64.ofNat (8 + body.length)) ++
      ([2 &&& 0xFF, frameType &&& 0xFF, byteAt chanId 8, chanId &&& 0xFF] : List Int64)) :=
    areBytes_append.mpr ⟨areBytes_fourBytes _, areBytes_lowBytes [2, _, chanId >>> 8, _]⟩
  have isSplit : writeFrame frameType chanId body = (pushU32 (Int64.ofNat (8 + body.length)) ++
      ([2 &&& 0xFF, frameType &&& 0xFF, byteAt chanId 8, chanId &&& 0xFF] : List Int64)) ++
      pushRawBytes body := by
    rw [writeFrame, isSum]
    simp only [pushU8, pushU16, List.append_assoc, List.cons_append, List.nil_append]
  rw [isSplit, List.map_append, List.append_assoc] at isStream
  rcases httpConnReadN_bytes conn areHeader (by simp [pushU32, fourBytes]) isStream with
    ⟨later, isHeader, isRest⟩
  have isEight : httpConnReadN conn 8 = _ := isHeader
  refine ⟨later, ?_, isRest⟩
  rw [readFrame, isEight]
  dsimp only
  rw [if_neg (by simp [pushU32, fourBytes])]
  simp only [pushU32, fourBytes, List.cons_append, List.nil_append, List.getD_cons_zero,
    List.getD_cons_succ]
  rw [isSize, isLength, isShort, isOctet, isTwo]

/-- Behind the fixed header of a frame that was written comes its body. -/
theorem readRest_two (conn : TinoxConn) (frameType chanId : Int64) (fits : body.length < 2 ^ 32) :
    readRest (Int64.ofNat (8 + body.length)) 2 frameType chanId conn =
      if 16777216 < Int64.ofNat body.length then (⟨-2, chanId, []⟩, conn)
      else
        match (readPart conn (Int64.ofNat body.length)).1 with
        | none => (⟨-1, 0, []⟩, (readPart conn (Int64.ofNat body.length)).2)
        | some data => (⟨frameType, chanId, data⟩, (readPart conn (Int64.ofNat body.length)).2) := by
  have isEight : (8 : Int64) = Int64.ofNat 8 := rfl
  have isHeader : (2 : Int64) * 4 = 8 := by decide
  have noExtended : readPart conn (8 - 8) = (some [], conn) := rfl
  have isBody : Int64.ofNat (8 + body.length) - 8 = Int64.ofNat body.length := by
    rw [Int64.ofNat_add, isEight, Int64.add_comm, Int64.add_sub_cancel]
  have hasHeader : ¬ Int64.ofNat (8 + body.length) < 8 := by
    rw [isEight, ofNat_lt (by omega) (by decide)]
    omega
  have wellFormed : ¬ (Int64.ofNat (8 + body.length) < 8 ∨ (2 : Int64) < 2) := by
    rintro (small | small)
    · exact hasHeader small
    · exact absurd small (by decide)
  rw [readRest, isHeader]
  dsimp only
  rw [if_neg wellFormed, if_neg hasHeader, noExtended, isBody]
  dsimp only
  exact if_neg (Option.some_ne_none _)

/-- A frame is read as it was written, however its bytes arrive, when its body has at most sixteen
mebibytes. -/
theorem readFrame_writeFrame (conn : TinoxConn) (isType : Between 0 (2 ^ 8) frameType)
    (areBytes : AreBytes body) (fits : body.length ≤ 16777216)
    (isStream : conn.incoming.flatten = (writeFrame frameType chanId body).map lowByte ++ more) :
    ∃ later, readFrame conn =
        (⟨frameType, channelOf chanId, body⟩, { conn with incoming := later }) ∧
      later.flatten = more := by
  have isCap : (16777216 : Int64) = Int64.ofNat 16777216 := rfl
  rcases readFrame_header conn isType (by omega) isStream with ⟨behind, isRead, isRest⟩
  rw [pushRawBytes, lowBytes_eq areBytes] at isRest
  rcases readPart_bytes { conn with incoming := behind } areBytes (by omega) isRest with
    ⟨later, isBody, isMore⟩
  refine ⟨later, ?_, isMore⟩
  have notLarge : ¬ 16777216 < Int64.ofNat body.length := by
    rw [isCap, ofNat_lt (by decide) (by omega)]
    omega
  rw [isRead, readRest_two _ _ _ (by omega), if_neg notLarge, isBody]

theorem readFrame_large (conn : TinoxConn) (isType : Between 0 (2 ^ 8) frameType)
    (isLarge : 16777216 < body.length) (fits : 8 + body.length < 2 ^ 32)
    (isStream : conn.incoming.flatten = (writeFrame frameType chanId body).map lowByte ++ more) :
    (readFrame conn).1.frameType = -2 := by
  have isCap : (16777216 : Int64) = Int64.ofNat 16777216 := rfl
  rcases readFrame_header conn isType fits isStream with ⟨behind, isRead, _⟩
  rw [isRead, readRest_two _ _ _ (by omega), if_pos]
  rwa [isCap, ofNat_lt (by decide) (by omega)]

variable {contentType : CString} {link source : Amqp10Link} {session : Amqp10Session}

theorem readNext_writeValue {v : Amqp10Value} (inRange : Everywhere InRange v) (fits : Everywhere Fits v)
    (isFlat : height v ≤ (writeValue v).length) (rest : List Int64) (pos : Nat) :
    readNext ⟨writeValue v ++ rest, pos, false⟩ =
      (v, ⟨rest, pos + (writeValue v).length, false⟩) := by
  have enough : height v < left ⟨writeValue v ++ rest, pos, false⟩ + 1 := by
    rw [left, List.length_append]
    omega
  rw [readNext, readsBack v inRange fits, if_pos enough]
  rfl

theorem readSections_done (rounds : Nat) {mr : Reader} (isDone : mr.bytes = []) (s : Sections) :
    readSections rounds mr s = (s, mr) := by
  cases rounds with
  | zero => rfl
  | succ rounds =>
      rw [readSections, if_neg]
      rw [isDone]
      exact Nat.lt_irrefl 0

theorem readSections_next (rounds : Nat) {v : Amqp10Value} (inRange : Everywhere InRange v)
    (fits : Everywhere Fits v) (isFlat : height v ≤ (writeValue v).length)
    (isSome : 0 < (writeValue v).length) (rest : List Int64) (pos : Nat) (s : Sections) :
    readSections (rounds + 1) ⟨writeValue v ++ rest, pos, false⟩ s =
      readSections rounds ⟨rest, pos + (writeValue v).length, false⟩ (s.add v) := by
  have hasBytes : 0 < (writeValue v ++ rest).length := by
    rw [List.length_append]
    omega
  rw [readSections]
  dsimp only
  rw [if_pos hasBytes, readNext_writeValue inRange fits isFlat]

theorem messageSections_encode (areBytes : AreBytes body) (noZero : 0 ∉ contentType)
    (bodyFits : body.length < 2 ^ 32) (typeFits : contentType.length < 2 ^ 32) :
    (messageSections (encodeMessageBody body contentType)).1 = ⟨body, contentType, true⟩ := by
  have isLength := length_encodeMessageBody body contentType
  have isRounds : (encodeMessageBody body contentType).length =
      29 + contentType.length + body.length + 1 + 1 := by omega
  have data := readSections_next (29 + contentType.length + body.length)
    (v := .describedVal 0x75 (.binaryVal body)) ⟨⟨by decide, by decide⟩, areBytes⟩ ⟨trivial, bodyFits⟩
    (by simp [height, writeValue, pushU8]) (by simp [writeValue, pushU8]) []
  rw [messageSections, isRounds, encodeMessageBody, Reader.new, readSections_next]
  · rw [List.append_nil] at data
    rw [data, readSections_done _ rfl]
    rfl
  · exact ⟨⟨by decide, by decide⟩, trivial, trivial, trivial, trivial, trivial, trivial, trivial, noZero,
      trivial⟩
  · exact ⟨trivial, (by decide : 7 < 2 ^ 32), trivial, trivial, trivial, trivial, trivial, trivial,
      typeFits, trivial⟩
  · simp [height, heights, writeValue, pushU8]
  · simp [writeValue, pushU8]

/-- A transaction state that is written with a publication. -/
structure IsState (txnState : Amqp10Value) : Prop where
  inRange : Everywhere InRange txnState
  fits : Everywhere Fits txnState
  isFlat : height txnState ≤ 2

theorem readNext_transfer (isHandle : source.handle = link.handle % 2 ^ 32)
    {txnState state : Amqp10Value} (isState : IsState state)
    (same : writeValue txnState = writeValue state) (more : Bool) (msgBytes : List Int64) :
    ∃ fields pos, readNext (.new (encodePerformative 0x14 (transferFields link
        (deliveryTagBytes (Int64.ofNat link.deliveryCount)) txnState more) ++ msgBytes)) =
      (.describedVal 0x14 (.listVal fields), ⟨msgBytes, pos, false⟩) ∧
      wrongHandle source fields = none ∧ goesOn fields = more := by
  let handle := Int64.ofNat link.handle
  let deliveryId := Int64.ofNat link.deliveryCount
  let fields : List Amqp10Value := [.uIntVal (low handle), .uIntVal (low deliveryId),
    .binaryVal (deliveryTagBytes deliveryId), .uIntVal 0, .boolVal true, .boolVal more, .uByteVal 0,
    state]
  have isWritten : encodePerformative 0x14 (transferFields link (deliveryTagBytes deliveryId) txnState more) =
      writeValue (.describedVal 0x14 (.listVal fields)) := by
    simp only [encodePerformative, transferFields, fields, writeValue, writeValues, pushU32_low,
      List.length_cons, same, handle, deliveryId]
  have inRange : Everywhere InRange (.describedVal 0x14 (.listVal fields)) :=
    ⟨⟨by decide, by decide⟩, trivial, between_low handle, between_low deliveryId,
      areBytes_fourBytes deliveryId, ⟨by decide, by decide⟩, trivial, trivial, ⟨by decide, by decide⟩,
      isState.inRange, trivial⟩
  have fits : Everywhere Fits (.describedVal 0x14 (.listVal fields)) :=
    ⟨trivial, (by decide : 8 < 2 ^ 32), trivial, trivial, (by decide : 4 < 2 ^ 32), trivial, trivial,
      trivial, trivial, isState.fits, trivial⟩
  have isFlat : height (.describedVal 0x14 (.listVal fields)) ≤
      (writeValue (.describedVal 0x14 (.listVal fields))).length := by
    have small := isState.isFlat
    simp [fields, height, heights, writeValue, writeValues, compound, pushU8, pushU32, fourBytes]
    omega
  have isRead := readNext_writeValue inRange fits isFlat msgBytes 0
  have sameHandle : low handle = Int64.ofNat source.handle := by
    have isBits : bits handle = link.handle % 2 ^ 64 := BitVec.toNat_ofNat _ _
    rw [low, isBits, isHandle]
    congr 1
    omega
  refine ⟨fields, _, isWritten ▸ isRead, ?_, rfl⟩
  simp [wrongHandle, fields, sameHandle]

theorem encodeMessageBody_lowBytes (body : List Int64) (contentType : CString) :
    encodeMessageBody (lowBytes body) contentType = encodeMessageBody body contentType := by
  have same : lowBytes (lowBytes body) = lowBytes body := lowBytes_eq (areBytes_lowBytes body)
  have sameLength : (lowBytes body).length = body.length := List.length_map _
  rw [encodeMessageBody, encodeMessageBody]
  simp only [writeValue, pushRawBytes, same, sameLength]

theorem areBytes_encodeMessageBody (body : List Int64) (contentType : CString) :
    AreBytes (encodeMessageBody body contentType) :=
  areBytes_append.mpr ⟨areBytes_writeValue _, areBytes_writeValue _⟩

theorem messageOf_whole {f : Amqp10Frame} {fields : List Amqp10Value} {rest : List Int64}
    {pos : Nat} (isAmqp : f.frameType = 0) (isChannel : f.chanId = session.chanId)
    (isRead : readNext (.new f.body) = (.describedVal 0x14 (.listVal fields), ⟨rest, pos, false⟩))
    (isOurs : wrongHandle link fields = none) (isWhole : goesOn fields = false)
    (fits : rest.length < 2 ^ 63) (sections : (messageSections rest).1 = ⟨body, contentType, true⟩) :
    messageOf session link f = ⟨body, contentType, deliveryIdOf fields, true, []⟩ := by
  have isCount : (Int64.ofNat rest.length).toInt.toNat = rest.length := by
    rw [Int64.toInt_ofNat_of_lt fits, Int.toNat_natCast]
  have isRest := readBytesLoop_spec rest [] pos
  rw [List.append_nil] at isRest
  rw [messageOf, if_neg (not_not.mpr isAmqp), if_neg (not_not.mpr isChannel), isRead]
  dsimp only
  rw [performativeOf]
  dsimp only
  rw [if_neg (not_not.mpr rfl), isOurs]
  dsimp only
  rw [if_neg (ne_true_of_eq_false isWhole), readRawBytes, isCount, isRest]
  dsimp only
  rw [sections]
  rfl

theorem messageOf_transfer (isHandle : source.handle = link.handle % 2 ^ 32)
    {txnState state : Amqp10Value} (isState : IsState state)
    (same : writeValue txnState = writeValue state) (receiver : Amqp10Session)
    (noZero : 0 ∉ contentType) (bodyFits : body.length < 2 ^ 32)
    (typeFits : contentType.length < 2 ^ 32) :
    ∃ deliveryId, messageOf receiver source ⟨0, receiver.chanId, encodePerformative 0x14 (transferFields link
        (deliveryTagBytes (Int64.ofNat link.deliveryCount)) txnState false) ++
        encodeMessageBody body contentType⟩ = ⟨lowBytes body, contentType, deliveryId, true, []⟩ := by
  rcases readNext_transfer isHandle isState same false (encodeMessageBody body contentType) with
    ⟨fields, pos, isRead, isOurs, isWhole⟩
  have sections := messageSections_encode (areBytes_lowBytes body) noZero
    (by rwa [lowBytes, List.length_map]) typeFits
  rw [encodeMessageBody_lowBytes] at sections
  have isLength := length_encodeMessageBody body contentType
  have fits : (encodeMessageBody body contentType).length < 2 ^ 63 := by omega
  exact ⟨deliveryIdOf fields, messageOf_whole rfl rfl isRead isOurs isWhole fits sections⟩

/-- The link of this handle, in the session of this channel, takes the message from a frame, however
the bytes of the frame arrive. -/
def TakenFrom (frame : List Int64) (session : Amqp10Session) (link : Amqp10Link)
    (publication : Publication) : Prop :=
  ∀ (receiver : Amqp10Session) (source : Amqp10Link) (conn : TinoxConn) (later : List UInt8),
    receiver.chanId = channelOf session.chanId → source.handle = link.handle % 2 ^ 32 →
    conn.incoming.flatten = frame.map lowByte ++ later →
    let message := (nextMessage receiver source conn).message
    message.ok = true ∧ message.body = publication.body ∧ message.contentType = publication.contentType

/-- What is wanted of the frames of a publication. -/
structure Carried (session : Amqp10Session) (link : Amqp10Link) (publication : Publication) : Prop where
  fits : ∀ part ∈ publishParts session publication,
    ((part.frame session link publication.txnState).length : Int) ≤ session.maxFrameSize
  whole : ((publishParts session publication).map Part.chunk).flatten =
    encodeMessageBody publication.body publication.contentType
  more : ∃ before last, publishParts session publication = before ++ [last] ∧
    (∀ part ∈ before, part.more = true) ∧ last.more = false
  taken : ∀ part, publishParts session publication = [part] →
    TakenFrom (part.frame session link publication.txnState) session link publication

theorem message_pos (publication : Publication) :
    0 < (encodeMessageBody publication.body publication.contentType).length := by
  rw [length_encodeMessageBody]
  omega

theorem chunks_publishParts (session : Amqp10Session) (publication : Publication) :
    (publishParts session publication).map Part.chunk = Pieces.cut (maxBodyPerFrame_pos session)
      (encodeMessageBody publication.body publication.contentType) 0 :=
  chunks_transferLoop _ _ 0 true fun _ => message_pos publication

theorem publishParts_single {publication : Publication}
    (isSmall : (encodeMessageBody publication.body publication.contentType).length ≤ maxBodyPerFrame session) :
    publishParts session publication =
      [⟨false, encodeMessageBody publication.body publication.contentType⟩] := by
  have noMore : ¬ (encodeMessageBody publication.body publication.contentType).length <
      (encodeMessageBody publication.body publication.contentType).length := Nat.lt_irrefl _
  rw [publishParts, transferLoop, if_pos (.inr rfl)]
  dsimp only
  rw [Nat.sub_zero, if_neg (Nat.not_lt.mpr isSmall), transferLoop, if_neg]
  · rw [Nat.zero_add, List.drop_zero, List.take_length, decide_eq_false noMore]
  · rw [Nat.zero_add]
    rintro (inside | isFirst)
    · exact noMore inside
    · exact nomatch isFirst

/-- Only then. -/
theorem single_publishParts {publication : Publication} {part : Part}
    (isSingle : publishParts session publication = [part]) :
    (encodeMessageBody publication.body publication.contentType).length ≤ maxBodyPerFrame session := by
  have areChunks := chunks_publishParts session publication
  rw [isSingle, List.map_singleton] at areChunks
  have isWhole := Pieces.flatten_cut (maxBodyPerFrame_pos session)
    (encodeMessageBody publication.body publication.contentType) 0
  have isShort : part.chunk.length ≤ maxBodyPerFrame session :=
    Pieces.length_le_of_mem_cut _ (areChunks ▸ List.mem_singleton_self part.chunk)
  rw [← areChunks, List.flatten_singleton, List.drop_zero] at isWhole
  rwa [← isWhole]

section Frames

variable {session : Amqp10Session} {link : Amqp10Link} {publication : Publication} {own : Nat}

variable {conn : TinoxConn}

theorem length_frame (isOwn : ∀ more, (encodePerformative 0x14 (transferFields link
      (deliveryTagBytes (Int64.ofNat link.deliveryCount)) publication.txnState more)).length = own)
    (part : Part) :
    (part.frame session link publication.txnState).length = 8 + own + part.chunk.length := by
  rw [Part.frame, length_writeFrame, List.length_append, isOwn]
  omega

theorem frames_fit_iff (isOwn : ∀ more, (encodePerformative 0x14 (transferFields link
      (deliveryTagBytes (Int64.ofNat link.deliveryCount)) publication.txnState more)).length = own) :
    (∀ part ∈ publishParts session publication,
      ((part.frame session link publication.txnState).length : Int) ≤ session.maxFrameSize) ↔
    ((8 + own + min (encodeMessageBody publication.body publication.contentType).length
      (maxBodyPerFrame session) : Nat) : Int) ≤ session.maxFrameSize := by
  have areChunks := chunks_publishParts session publication
  constructor
  · intro fit
    rw [Pieces.cut_of_lt _ (message_pos publication), List.drop_zero] at areChunks
    rcases List.map_eq_cons_iff.mp areChunks with ⟨part, rest, isParts, isChunk, _⟩
    have isFit := fit part (isParts ▸ List.mem_cons_self)
    rwa [length_frame isOwn, isChunk, List.length_take, Nat.min_comm] at isFit
  · intro isFit part member
    have isPiece := areChunks ▸ List.mem_map_of_mem member
    have isShort := Pieces.length_le_of_mem_cut _ isPiece
    have isPart := (List.sublist_flatten_of_mem isPiece).length_le
    rw [Pieces.flatten_cut, List.drop_zero] at isPart
    rw [length_frame isOwn]
    omega

/-- The performative of a transfer that is whole. -/
abbrev wholeTransfer (link : Amqp10Link) (txnState : Amqp10Value) : List Int64 :=
  encodePerformative 0x14
    (transferFields link (deliveryTagBytes (Int64.ofNat link.deliveryCount)) txnState false)

theorem readFrameSkipHeartbeats_eq
    (isNext : (readFrame conn).1.frameType < 0 ∨ 0 < (readFrame conn).1.body.length) :
    readFrameSkipHeartbeats conn = readFrame conn := by
  rw [readFrameSkipHeartbeats]
  split
  · rfl
  next goesOn => rw [if_pos (isNext.resolve_left goesOn)]

/-- What is received from a single frame that is not too large for `readFrame`. -/
theorem nextMessage_frame
    (hasState : own ≤ 16777216 → ∃ state, IsState state ∧ writeValue publication.txnState = writeValue state)
    (isOwn : (wholeTransfer link publication.txnState).length = own)
    (noZero : 0 ∉ publication.contentType)
    (small : own + (encodeMessageBody publication.body publication.contentType).length ≤ 16777216)
    {receiver : Amqp10Session} {later : List UInt8}
    (isChannel : receiver.chanId = channelOf session.chanId)
    (isHandle : source.handle = link.handle % 2 ^ 32)
    (isStream : conn.incoming.flatten = (Part.frame session link publication.txnState ⟨false, encodeMessageBody publication.body publication.contentType⟩).map lowByte ++ later) :
    ∃ deliveryId, (nextMessage receiver source conn).message =
      ⟨lowBytes publication.body, publication.contentType, deliveryId, true, []⟩ := by
  have isLength := length_encodeMessageBody publication.body publication.contentType
  have isBody : (wholeTransfer link publication.txnState ++
      encodeMessageBody publication.body publication.contentType).length =
      own + (encodeMessageBody publication.body publication.contentType).length := by
    rw [List.length_append, isOwn]
  have areBytes : AreBytes (wholeTransfer link publication.txnState ++
      encodeMessageBody publication.body publication.contentType) :=
    areBytes_append.mpr ⟨areBytes_writeValue _, areBytes_encodeMessageBody _ _⟩
  have isType : Between 0 (2 ^ 8) 0 := ⟨by decide, by decide⟩
  have isFrame : conn.incoming.flatten = (writeFrame 0 session.chanId
      (wholeTransfer link publication.txnState ++
        encodeMessageBody publication.body publication.contentType)).map lowByte ++ later := isStream
  rcases readFrame_writeFrame conn isType areBytes (by rwa [isBody]) isFrame with ⟨_, isRead, _⟩
  rcases hasState (by omega) with ⟨state, isState, same⟩
  have bodyFits : publication.body.length < 2 ^ 32 := by omega
  have typeFits : publication.contentType.length < 2 ^ 32 := by omega
  rcases messageOf_transfer isHandle isState same receiver noZero bodyFits typeFits with
    ⟨deliveryId, isMessage⟩
  have isNext : 0 < (readFrame conn).1.body.length := by
    rw [isRead]
    dsimp only
    omega
  have isFound := readFrameSkipHeartbeats_eq (.inr isNext)
  rw [isRead, ← isChannel] at isFound
  refine ⟨deliveryId, ?_⟩
  rw [nextMessage, isFound]
  dsimp only
  rw [isMessage]

theorem nextMessage_large (isOwn : (wholeTransfer link publication.txnState).length = own)
    (isLarge : 16777216 < own + (encodeMessageBody publication.body publication.contentType).length)
    (fits : 8 + own + (encodeMessageBody publication.body publication.contentType).length < 2 ^ 32)
    (receiver : Amqp10Session) (source : Amqp10Link) {later : List UInt8}
    (isStream : conn.incoming.flatten = (Part.frame session link publication.txnState ⟨false, encodeMessageBody publication.body publication.contentType⟩).map lowByte ++ later) :
    (nextMessage receiver source conn).message.ok = false := by
  have isBody : (wholeTransfer link publication.txnState ++
      encodeMessageBody publication.body publication.contentType).length =
      own + (encodeMessageBody publication.body publication.contentType).length := by
    rw [List.length_append, isOwn]
  have isType : Between 0 (2 ^ 8) 0 := ⟨by decide, by decide⟩
  have isFrame : conn.incoming.flatten = (writeFrame 0 session.chanId
      (wholeTransfer link publication.txnState ++
        encodeMessageBody publication.body publication.contentType)).map lowByte ++ later := isStream
  have isRefused : (readFrame conn).1.frameType = -2 :=
    readFrame_large conn isType (by rwa [isBody]) (by omega) isFrame
  have isEnd : (readFrame conn).1.frameType < 0 := isRefused ▸ by decide
  have notAmqp : (readFrame conn).1.frameType ≠ 0 := isRefused ▸ by decide
  rw [nextMessage, readFrameSkipHeartbeats_eq (.inl isEnd)]
  dsimp only
  rw [messageOf, if_pos notAmqp]

/-- A message that is in a single frame is taken when it consists of bytes and the frame is not too
large for `readFrame`. -/
theorem takenFrom_iff (hasState : own ≤ 16777216 →
      ∃ state, IsState state ∧ writeValue publication.txnState = writeValue state)
    (isOwn : (wholeTransfer link publication.txnState).length = own)
    (noZero : 0 ∉ publication.contentType)
    (fits : 8 + own + (encodeMessageBody publication.body publication.contentType).length < 2 ^ 32) :
    TakenFrom (Part.frame session link publication.txnState
        ⟨false, encodeMessageBody publication.body publication.contentType⟩) session link publication ↔
      AreBytes publication.body ∧
        own + (encodeMessageBody publication.body publication.contentType).length ≤ 16777216 := by
  constructor
  · intro taken
    let frame := Part.frame session link publication.txnState
      ⟨false, encodeMessageBody publication.body publication.contentType⟩
    let receiver : Amqp10Session := { session with chanId := channelOf session.chanId }
    let source : Amqp10Link := { link with handle := link.handle % 2 ^ 32 }
    let conn : TinoxConn := ⟨[frame.map lowByte], [], false⟩
    have isStream : conn.incoming.flatten = frame.map lowByte ++ [] := by
      rw [List.append_nil]
      exact List.flatten_singleton
    rcases taken receiver source conn [] rfl rfl isStream with ⟨isOk, sameBody, _⟩
    have small : own + (encodeMessageBody publication.body publication.contentType).length ≤ 16777216 := by
      by_contra large
      rw [nextMessage_large isOwn (Nat.lt_of_not_le large) fits receiver source isStream] at isOk
      exact nomatch isOk
    have isChannel : receiver.chanId = channelOf session.chanId := rfl
    have isHandle : source.handle = link.handle % 2 ^ 32 := rfl
    rcases nextMessage_frame hasState isOwn noZero small isChannel isHandle isStream with
      ⟨deliveryId, isMessage⟩
    rw [isMessage] at sameBody
    exact ⟨sameBody ▸ areBytes_lowBytes _, small⟩
  · rintro ⟨areBytes, small⟩ receiver source conn later isChannel isHandle isStream
    rcases nextMessage_frame hasState isOwn noZero small isChannel isHandle isStream with
      ⟨deliveryId, isMessage⟩
    dsimp only
    rw [isMessage]
    exact ⟨rfl, lowBytes_eq areBytes, rfl⟩

theorem carried_iff (hasState : own ≤ 16777216 →
      ∃ state, IsState state ∧ writeValue publication.txnState = writeValue state)
    (isOwn : ∀ more, (encodePerformative 0x14 (transferFields link
      (deliveryTagBytes (Int64.ofNat link.deliveryCount)) publication.txnState more)).length = own)
    (noZero : 0 ∉ publication.contentType) (isU32 : session.maxFrameSize < 2 ^ 32) :
    Carried session link publication ↔
      ((8 + own + min (encodeMessageBody publication.body publication.contentType).length
        (maxBodyPerFrame session) : Nat) : Int) ≤ session.maxFrameSize ∧
      ((encodeMessageBody publication.body publication.contentType).length ≤ maxBodyPerFrame session →
        AreBytes publication.body ∧
          own + (encodeMessageBody publication.body publication.contentType).length ≤ 16777216) := by
  constructor
  · intro carried
    have isFit := (frames_fit_iff isOwn).mp carried.fits
    refine ⟨isFit, fun isSmall => ?_⟩
    have taken := carried.taken _ (publishParts_single isSmall)
    rw [Nat.min_eq_left isSmall] at isFit
    exact (takenFrom_iff hasState (isOwn false) noZero (by omega)).mp taken
  · rintro ⟨isFit, isTaken⟩
    refine ⟨(frames_fit_iff isOwn).mpr isFit, ?_, ?_, ?_⟩
    · rw [chunks_publishParts, Pieces.flatten_cut, List.drop_zero]
    · exact more_transferLoop _ _ 0 true (message_pos publication)
    · intro part isSingle
      have isSmall := single_publishParts isSingle
      have isPart := (publishParts_single isSmall).symm.trans isSingle
      rw [Nat.min_eq_left isSmall] at isFit
      rw [← (List.cons_eq_cons.mp isPart).1]
      exact (takenFrom_iff hasState (isOwn false) noZero (by omega)).mpr (isTaken isSmall)

end Frames

theorem isState_null : IsState .nullVal :=
  ⟨trivial, trivial, by decide⟩

theorem isState_transactional (txnId : List Int64) (fits : txnId.length < 2 ^ 32) :
    ∃ state, IsState state ∧ writeValue (transactionalState txnId) = writeValue state := by
  have same : lowBytes (lowBytes txnId) = lowBytes txnId := lowBytes_eq (areBytes_lowBytes txnId)
  have sameLength : (lowBytes txnId).length = txnId.length := List.length_map _
  refine ⟨transactionalState (lowBytes txnId), ⟨?_, ?_, by simp [transactionalState, height, heights]⟩, ?_⟩
  · exact ⟨⟨by decide, by decide⟩, trivial, areBytes_lowBytes txnId, trivial, trivial⟩
  · exact ⟨trivial, (by decide : 2 < 2 ^ 32), sameLength.trans_lt fits, trivial, trivial⟩
  · simp only [transactionalState, writeValue, writeValues, pushRawBytes, same, sameLength,
      List.length_cons]

/-- A publication outside of transactions is carried as wanted, and received when it is sent in a
single frame that is not too large to be read; one in a transaction when it is sent in a single frame
together with the transaction id, which the estimate of the performative leaves out. -/
theorem carried_publications (session : Amqp10Session) (link : Amqp10Link) (body : List Int64)
    {contentType : CString} (noZero : 0 ∉ contentType) (atLeast : 512 ≤ session.maxFrameSize)
    (isU32 : session.maxFrameSize < 2 ^ 32) :
    (Carried session link (publish body contentType) ↔
      session.maxFrameSize < (95 + contentType.length + body.length : Nat) ∨
        AreBytes body ∧ 74 + contentType.length + body.length ≤ 16777216) ∧
    ∀ txnId, (Carried session link (publishTransactional body contentType txnId) ↔
      ((99 + txnId.length + contentType.length + body.length : Nat) : Int) ≤ session.maxFrameSize ∧
        AreBytes body ∧ 91 + txnId.length + contentType.length + body.length ≤ 16777216) := by
  have isLength := length_encodeMessageBody body contentType
  have isRoom : (maxBodyPerFrame session : Int) = session.maxFrameSize - 64 := by
    rw [maxBodyPerFrame, if_neg (by omega)]
    omega
  constructor
  · rw [@carried_iff session link (publish body contentType) 43 (fun _ => ⟨.nullVal, isState_null, rfl⟩)
      (length_transfer_null link _) noZero isU32]
    dsimp only [publish]
    constructor
    · rintro ⟨_, isTaken⟩
      by_cases isSmall : (encodeMessageBody body contentType).length ≤ maxBodyPerFrame session
      · exact .inr ⟨(isTaken isSmall).1, by have := (isTaken isSmall).2; omega⟩
      · exact .inl (by omega)
    · rintro (isLarge | ⟨areBytes, isReadable⟩)
      · exact ⟨by omega, fun isSmall => by omega⟩
      · exact ⟨by omega, fun _ => ⟨areBytes, by omega⟩⟩
  · intro txnId
    rw [@carried_iff session link (publishTransactional body contentType txnId) (60 + txnId.length)
      (fun small => isState_transactional txnId (by omega))
      (length_transfer_transactional link _ txnId) noZero isU32]
    dsimp only [publishTransactional]
    constructor
    · rintro ⟨isFit, isTaken⟩
      have isSmall : (encodeMessageBody body contentType).length ≤ maxBodyPerFrame session := by omega
      rcases isTaken isSmall with ⟨areBytes, isReadable⟩
      exact ⟨by omega, areBytes, by omega⟩
    · rintro ⟨isFit, areBytes, isReadable⟩
      exact ⟨by omega, fun _ => ⟨areBytes, by omega⟩⟩

/-- A message of two bytes, outside of transactions and in one. -/
theorem carried_publications_two :
    Carried ⟨0, 512, 1⟩ ⟨0, 1, 0, []⟩ (publish [104, 105] [116]) ∧
      Carried ⟨0, 512, 1⟩ ⟨0, 1, 0, []⟩ (publishTransactional [104, 105] [116] [7]) := by
  have noZero : (0 : UInt8) ∉ [116] := by decide
  have both := carried_publications ⟨0, 512, 1⟩ ⟨0, 1, 0, []⟩ [104, 105] noZero (by decide) (by decide)
  exact ⟨both.1.mpr (.inr ⟨areBytes_lowBytes [104, 105], by decide⟩),
    (both.2 [7]).mpr ⟨by decide, areBytes_lowBytes [104, 105], by decide⟩⟩

/-- In a transaction, the first frame of a message of some length is too long for the peer. -/
theorem transactional_notCarried :
    ¬ Carried ⟨0, 512, 1⟩ ⟨0, 1, 0, []⟩ (publishTransactional (List.replicate 600 104) [] [7]) := by
  intro carried
  let publication := publishTransactional (List.replicate 600 104) [] [7]
  have isFit := (@frames_fit_iff ⟨0, 512, 1⟩ ⟨0, 1, 0, []⟩ publication (60 + [7].length)
    (length_transfer_transactional ⟨0, 1, 0, []⟩ _ [7])).mp carried.fits
  rw [length_encodeMessageBody] at isFit
  dsimp only [publication, publishTransactional] at isFit
  rw [List.length_replicate] at isFit
  exact absurd isFit (by decide)

end Tinox.Amqp.Links
