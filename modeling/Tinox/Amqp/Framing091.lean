import Tinox.Amqp.Channel091

/-!
# Framing of AMQP 0-9-1 messages

A message that `publish` writes is cut into body frames of the size that the server has asked for,
and `nextMessage` puts it together again.  When the size leaves no room for a body, the frames have
a size of their own.
-/

namespace Tinox.Amqp.Channels

open Tinox.Net Tinox.Runtime Dispatch

theorem writeFrame_eq (frameType chanId : Int64) (payload : List Int64) :
    writeFrame frameType chanId payload =
      [frameType &&& 0xFF, byteAt chanId 8, chanId &&& 0xFF] ++
        fourBytes (Int64.ofNat payload.length) ++ lowBytes payload ++ [0xCE] := by
  have isEnd : (0xCE : Int64) &&& 0xFF = 0xCE := by decide
  simp [writeFrame, writeShort, AmqpWriter091.new, AmqpWriter091.octet, AmqpWriter091.long,
    AmqpWriter091.rawBytes, AmqpWriter091.push, isEnd]

theorem length_writeFrame (frameType chanId : Int64) (payload : List Int64) :
    (writeFrame frameType chanId payload).length = payload.length + 8 := by
  rw [writeFrame_eq]
  simp [fourBytes, lowBytes]

theorem short_bytes (v : Int64) (rest : List Int64) (pos : Nat) (truncated : Bool) :
    short ⟨[byteAt v 8, v &&& 0xFF] ++ rest, pos, truncated⟩ =
      (Int64.ofNat (bits v % 2 ^ 16), ⟨rest, pos + 2, truncated⟩) :=
  readU16_pushU16 v rest pos truncated

/-- `readFrame` returns a frame as it was written, however its bytes arrive, when its payload has at
most sixteen mebibytes. -/
theorem readFrame_writeFrame (conn : TinoxConn) {frameType chanId : Int64} {payload : List Int64}
    (isType : Between 0 (2 ^ 8) frameType) (isChannel : Between 0 (2 ^ 16) chanId)
    (areBytes : AreBytes payload) (fits : payload.length ≤ 16777216) {more : List UInt8}
    (isStream : conn.incoming.flatten = (writeFrame frameType chanId payload).map lowByte ++ more) :
    ∃ later, readFrame conn =
        (⟨frameType, chanId.toInt.toNat, payload⟩, { conn with incoming := later }) ∧
      later.flatten = more := by
  have isOctet : frameType &&& 0xFF = frameType := by
    have isLow := low_eq frameType
    rw [Nat.pow_zero, Nat.div_one] at isLow
    exact isLow.trans (unsigned_eq isType)
  have isShort : (byteAt chanId 8 <<< 8) ||| (chanId &&& 0xFF) = chanId := by
    have isPair := congrArg Prod.fst (short_bytes chanId [] 0 false)
    exact isPair.trans (unsigned_eq isChannel)
  have isSize := shifted_fourBytes (Int64.ofNat payload.length)
  have isLength : bits (Int64.ofNat payload.length) % 2 ^ 32 = payload.length := by
    rw [bits_ofNat (by omega), Nat.mod_eq_of_lt (by omega)]
  have isZero : (0 : Int64) = Int64.ofNat 0 := rfl
  have isCap : (16777216 : Int64) = Int64.ofNat 16777216 := rfl
  have notOutside : ¬ (Int64.ofNat payload.length < 0 ∨ 16777216 < Int64.ofNat payload.length) := by
    rw [isZero, isCap, ofNat_lt (by omega) (by decide), ofNat_lt (by decide) (by omega)]
    omega
  have areHeader : AreBytes ([frameType &&& 0xFF, byteAt chanId 8, chanId &&& 0xFF] ++
      fourBytes (Int64.ofNat payload.length)) :=
    areBytes_append.mpr ⟨areBytes_lowBytes [_, chanId >>> 8, _], areBytes_fourBytes _⟩
  rw [writeFrame_eq, lowBytes_eq areBytes, List.map_append, List.map_append, List.append_assoc,
    List.append_assoc] at isStream
  rcases httpConnReadN_bytes conn areHeader (by simp [fourBytes]) isStream with ⟨behind, isHeader, isRest⟩
  have isPayload : ∃ later, (if 0 < Int64.ofNat payload.length then
      httpConnReadN { conn with incoming := behind } (Int64.ofNat payload.length)
      else ([], { conn with incoming := behind })) = (payload, { conn with incoming := later }) ∧
        later.flatten = [0xCE].map lowByte ++ more := by
    split
    next => exact httpConnReadN_bytes { conn with incoming := behind } areBytes (by omega) isRest
    next isEmpty =>
      rw [isZero, ofNat_lt (by decide) (by omega), Nat.not_lt, Nat.le_zero_eq,
        List.length_eq_zero_iff] at isEmpty
      subst isEmpty
      exact ⟨behind, rfl, isRest⟩
  rcases isPayload with ⟨middle, isPayload, isLast⟩
  rcases @httpConnReadN_bytes { conn with incoming := middle } [0xCE] (areBytes_lowBytes [0xCE])
    (by decide) more isLast with ⟨later, isEnd, isMore⟩
  have isSeven : httpConnReadN conn 7 = _ := isHeader
  have isOne : httpConnReadN { conn with incoming := middle } 1 = _ := isEnd
  refine ⟨later, ?_, isMore⟩
  rw [readFrame, isSeven]
  dsimp only
  rw [if_neg (by simp [fourBytes])]
  simp only [fourBytes, List.cons_append, List.nil_append, List.getD_cons_zero, List.getD_cons_succ]
  rw [isSize, isLength, if_neg notOutside, isPayload, if_neg, isOne, isOctet, isShort]
  · rfl
  · rintro ⟨_, isLess⟩
    exact Int64.lt_irrefl isLess

theorem bodyLoop_eq {size : Nat} (positive : 0 < size) (chanId : Int64) (body : List Int64)
    (offset : Nat) :
    bodyLoop positive chanId body offset =
      (Pieces.cut positive body offset).map (writeFrame 3 chanId) := by
  fun_induction bodyLoop positive chanId body offset with
  | case1 offset inside stop ih =>
      rw [Pieces.cut_of_lt positive inside, List.map_cons, ih, List.drop_take]
      by_cases isLast : body.length < offset + size
      · have isStop : stop = body.length := dif_pos isLast
        have isWhole : (body.drop offset).take (body.length - offset) = (body.drop offset).take size := by
          rw [List.take_of_length_le (by rw [List.length_drop]),
            List.take_of_length_le (by rw [List.length_drop]; omega)]
        rw [isStop, isWhole, Pieces.cut_of_le positive (Nat.le_refl _),
          Pieces.cut_of_le positive (Nat.le_of_lt isLast)]
      · have isStop : stop = offset + size := dif_neg isLast
        rw [isStop, Nat.add_sub_cancel_left]
  | case2 offset atEnd => rw [Pieces.cut_of_le positive (Nat.not_lt.mp atEnd), List.map_nil]

/-- Body frames are put together until the size of the header is reached. -/
theorem collect_pieces {chunks : List (List Int64)} (notEmpty : ∀ chunk ∈ chunks, chunk ≠ [])
    (chanId : Nat) (done : List Int64) (rest : List AmqpFrame091)
    (fits : (done ++ chunks.flatten).length < 2 ^ 63) :
    collect (Int64.ofNat (done ++ chunks.flatten).length) done
        (chunks.map (AmqpFrame091.mk 3 chanId) ++ rest) =
      some (.ok (done ++ chunks.flatten), rest) := by
  induction chunks generalizing done with
  | nil =>
      have isAll : ¬ Int64.ofNat done.length < Int64.ofNat done.length := Int64.lt_irrefl
      rw [List.flatten_nil, List.append_nil, List.map_nil, List.nil_append]
      cases rest <;> rw [collect, if_neg isAll]
  | cons chunk chunks ih =>
      rw [List.forall_mem_cons] at notEmpty
      have isMore : Int64.ofNat done.length < Int64.ofNat (done ++ (chunk :: chunks).flatten).length := by
        have positive := List.length_pos_iff.mpr notEmpty.1
        rw [ofNat_lt (by rw [List.length_append] at fits; omega) fits, List.length_append,
          List.flatten_cons, List.length_append]
        omega
      rw [List.map_cons, List.cons_append, collect, if_pos isMore, if_neg (fun isOther => isOther rfl)]
      rw [List.flatten_cons, ← List.append_assoc] at fits ⊢
      exact ih notEmpty.2 _ fits

variable {contentType : CString}

theorem properties_bytes (short : contentType.length ≤ 255) : (properties contentType).2 =
      ⟨(if contentType = [] then [] else AmqpWriter091.keyBytes contentType) ++ [2], false⟩ := by
  have isTwo : (2 : Int64) &&& 0xFF = 2 := by decide
  rw [properties]
  dsimp only
  by_cases isEmpty : contentType = []
  · subst isEmpty
    rfl
  · have positive : 0 < contentType.length := List.length_pos_iff.mpr isEmpty
    rw [if_pos positive, if_neg isEmpty, AmqpWriter091.shortstr_push _ short]
    simp [AmqpWriter091.octet, AmqpWriter091.push, AmqpWriter091.new, isTwo]

theorem areBytes_keyBytes (key : CString) : AreBytes (AmqpWriter091.keyBytes key) := by
  have areBytes : AreBytes (lowBytes [Int64.ofNat key.length] ++ stringBytes key) :=
    areBytes_append.mpr ⟨areBytes_lowBytes _, areBytes_stringBytes key⟩
  exact areBytes

theorem headerPayload_eq (body : List Int64) (short : contentType.length ≤ 255) :
    headerPayload body contentType =
      [0, 60, 0, 0] ++ eightBytes (Int64.ofNat body.length) ++
        [byteAt (properties contentType).1 8, (properties contentType).1 &&& 0xFF] ++
        ((if contentType = [] then [] else AmqpWriter091.keyBytes contentType) ++ [2]) := by
  have areBytes : AreBytes ((if contentType = [] then [] else AmqpWriter091.keyBytes contentType) ++ [2]) := by
    rw [areBytes_append]
    refine ⟨?_, areBytes_lowBytes [2]⟩
    split
    · exact nofun
    · exact areBytes_keyBytes contentType
  have isClass : [byteAt 60 8, (60 : Int64) &&& 0xFF, byteAt 0 8, (0 : Int64) &&& 0xFF] = [0, 60, 0, 0] := by
    decide
  rw [headerPayload, properties_bytes short]
  simp only [writeShort, AmqpWriter091.new, AmqpWriter091.push, AmqpWriter091.longlong,
    AmqpWriter091.rawBytes, lowBytes_eq areBytes, List.nil_append]
  rw [← isClass]
  rfl

theorem readHeader_fixed (body rest : List Int64) (flags : Int64) :
    readHeader ([0, 60, 0, 0] ++ eightBytes (Int64.ofNat body.length) ++
        [byteAt flags 8, flags &&& 0xFF] ++ rest) =
      let flags := Int64.ofNat (bits flags % 2 ^ 16)
      let contentType := if flags &&& 32768 ≠ 0 then AmqpReader091.shortstr ⟨rest, 14, false⟩
        else ([], ⟨rest, 14, false⟩)
      ⟨Int64.ofNat body.length, contentType.1, otherProperties flags contentType.2⟩ := by
  have isClass : [0, 60, 0, 0] =
      [byteAt 60 8, (60 : Int64) &&& 0xFF] ++ [byteAt 0 8, (0 : Int64) &&& 0xFF] := by
    decide
  have isSize : ∀ data, AmqpReader091.longlong ⟨eightBytes (Int64.ofNat body.length) ++ data, 4, false⟩ =
      (Int64.ofNat body.length, ⟨data, 12, false⟩) := fun data => readNumber_eightBytes _ data 4 false
  rw [readHeader, isClass, Reader.new, List.append_assoc, List.append_assoc, List.append_assoc,
    short_bytes, short_bytes]
  dsimp only
  rw [isSize]
  dsimp only
  rw [short_bytes]

theorem readHeader_headerPayload (body : List Int64) (noZero : 0 ∉ contentType)
    (short : contentType.length ≤ 255) :
    (readHeader (headerPayload body contentType)).bodySize = Int64.ofNat body.length ∧
      (readHeader (headerPayload body contentType)).contentType = contentType := by
  rw [headerPayload_eq body short, readHeader_fixed]
  by_cases isEmpty : contentType = []
  · subst isEmpty
    exact ⟨rfl, rfl⟩
  · have positive : 0 < contentType.length := List.length_pos_iff.mpr isEmpty
    have isFlags : (properties contentType).1 = 36864 := by
      rw [properties]
      dsimp only
      rw [if_pos positive]
      decide
    have hasType : Int64.ofNat (bits 36864 % 2 ^ 16) &&& 32768 ≠ 0 := by decide
    rw [isFlags]
    dsimp only
    rw [if_pos hasType, if_neg isEmpty, AmqpReader091.shortstr_keyBytes noZero short]
    exact ⟨rfl, rfl⟩

/-- A frame with the method `basic.deliver`. -/
def IsDeliver (f : AmqpFrame091) : Prop :=
  f.frameType = 1 ∧ (decodeMethodPayload f.payload).classId = 60 ∧
    (decodeMethodPayload f.payload).methodId = 60

variable {body : List Int64}

theorem nextMessage_pieces (c : AmqpChannel091) {deliver : AmqpFrame091}
    (isDeliver : IsDeliver deliver) (chanId : Nat) (noZero : 0 ∉ contentType)
    (short : contentType.length ≤ 255) (fits : body.length < 2 ^ 63) {chunks : List (List Int64)}
    (notEmpty : ∀ chunk ∈ chunks, chunk ≠ []) (isBody : chunks.flatten = body)
    (rest : List AmqpFrame091) :
    nextMessage c (deliver :: ⟨2, chanId, headerPayload body contentType⟩ ::
        (chunks.map (AmqpFrame091.mk 3 chanId) ++ rest)) =
      let args := readDeliver (decodeMethodPayload deliver.payload).args
      some ⟨⟨args.deliveryTag, args.exchange, args.routingKey, contentType, body, true, []⟩, rest, []⟩ := by
  rcases isDeliver with ⟨isMethod, isClass, isId⟩
  rcases readHeader_headerPayload body noZero short with ⟨isSize, isType⟩
  have collected := collect_pieces notEmpty chanId [] rest (by rwa [List.nil_append, isBody])
  rw [List.nil_append, isBody] at collected
  rw [nextMessage]
  dsimp only
  rw [if_neg (fun isOther => isOther isMethod), isClass, isId, if_neg (by decide), if_neg (by decide),
    if_neg (by decide), isSize, isType, collected]
  rfl

variable {exchange routingKey : CString}

/-- A name that fits into a short string is written, another one sets the flag. -/
theorem shortstr_tooLong (w : AmqpWriter091) {s : CString} (fits : s.length < 2 ^ 63) :
    (w.shortstr s).tooLong = (w.tooLong || decide (255 < s.length)) := by
  have isLong := @ofNat_lt 255 s.length (by decide) fits
  have isBound : (255 : Int64) = Int64.ofNat 255 := rfl
  rw [AmqpWriter091.shortstr, isBound]
  split
  · rename_i tooLong
    rw [decide_eq_true (isLong.mp tooLong), Bool.or_true]
  · rename_i notLong
    rw [decide_eq_false (fun tooLong => notLong (isLong.mpr tooLong)), Bool.or_false]
    rfl

theorem hasError_publishArgs (exchangeFits : exchange.length < 2 ^ 63)
    (routingKeyFits : routingKey.length < 2 ^ 63) : (publishArgs exchange routingKey).hasError =
      (decide (255 < exchange.length) || decide (255 < routingKey.length)) := by
  have isFlag : (publishArgs exchange routingKey).hasError =
      (((writeShort .new 0).shortstr exchange).shortstr routingKey).tooLong := rfl
  rw [isFlag, shortstr_tooLong _ routingKeyFits, shortstr_tooLong _ exchangeFits]
  rfl

theorem written_publish (c : AmqpChannel091) (exchangeShort : exchange.length ≤ 255)
    (routingKeyShort : routingKey.length ≤ 255) (body : List Int64)
    (short : contentType.length ≤ 255) : (publish c exchange routingKey body contentType).written =
      writeFrame 1 c.chanId (encodeMethodPayload 60 40 (publishArgs exchange routingKey).bytes) ::
        writeFrame 2 c.chanId (headerPayload body contentType) ::
        (Pieces.cut (chunkSize_pos c.frameMax) body 0).map (writeFrame 3 c.chanId) := by
  have noError : ¬ (publishArgs exchange routingKey).hasError = true := by
    rw [hasError_publishArgs (by omega) (by omega)]
    simp
    omega
  have isShort : ¬ (properties contentType).2.hasError = true := by
    rw [properties_bytes short]
    exact Bool.false_ne_true
  rw [publish]
  dsimp only
  rw [if_neg noError, if_neg isShort, bodyLoop_eq]

theorem written_tooLong (c : AmqpChannel091) (exchangeFits : exchange.length < 2 ^ 63)
    (routingKeyFits : routingKey.length < 2 ^ 63)
    (tooLong : 255 < exchange.length ∨ 255 < routingKey.length) (body : List Int64)
    (contentType : CString) : (publish c exchange routingKey body contentType).written = [] := by
  have isError : (publishArgs exchange routingKey).hasError = true := by
    rw [hasError_publishArgs exchangeFits routingKeyFits, Bool.or_eq_true, decide_eq_true_iff,
      decide_eq_true_iff]
    exact tooLong
  rw [publish]
  dsimp only
  rw [if_pos isError]

/-- A message is written as a method frame, a header frame and body frames that are no longer than
negotiated and carry the body, and from the header frame and the body frames behind a
`basic.deliver` it is received as it was sent. -/
def FramedExactly (c : AmqpChannel091) (exchange routingKey : CString) (body : List Int64)
    (contentType : CString) : Prop :=
  ∃ (method header : List Int64) (chunks : List (List Int64)),
    (publish c exchange routingKey body contentType).written =
      writeFrame 1 c.chanId method :: writeFrame 2 c.chanId header ::
        chunks.map (writeFrame 3 c.chanId) ∧
    (∀ chunk ∈ chunks, AreBytes chunk ∧
      ((writeFrame 3 c.chanId chunk).length : Int) ≤ c.frameMax.toInt) ∧
    chunks.flatten = body ∧
    ∀ (receiver : AmqpChannel091) (deliver : AmqpFrame091) (chanId : Nat) (rest : List AmqpFrame091),
      IsDeliver deliver → ∃ message,
        nextMessage receiver (deliver :: ⟨2, chanId, header⟩ ::
          (chunks.map (AmqpFrame091.mk 3 chanId) ++ rest)) = some ⟨message, rest, []⟩ ∧
        message.ok = true ∧ message.body = body ∧ message.contentType = contentType

theorem toInt_sub_eight {n : Int64} (inRange : 0 ≤ n.toInt) : (n - 8).toInt = n.toInt - 8 := by
  have isEight : (8 : Int64).toInt = 8 := rfl
  have below : n.toInt < 2 ^ 63 := Int64.toInt_lt n
  rw [Int64.toInt_sub, isEight]
  apply Int.bmod_eq_of_le <;> omega

theorem length_piece_le (c : AmqpChannel091) (hasRoom : 8 < c.frameMax.toInt) {chunk : List Int64}
    (isPiece : chunk ∈ Pieces.cut (chunkSize_pos c.frameMax) body 0) :
    ((writeFrame 3 c.chanId chunk).length : Int) ≤ c.frameMax.toInt := by
  have isShort := Pieces.length_le_of_mem_cut _ isPiece
  have isDifference := @toInt_sub_eight c.frameMax (by omega)
  have isZero : (0 : Int64).toInt = 0 := rfl
  rw [length_writeFrame]
  rw [chunkSize, if_neg] at isShort
  · rw [isDifference] at isShort
    omega
  · rw [Int64.not_le, Int64.lt_iff_toInt_lt, isDifference]
    omega

theorem framedExactly_of_room (c : AmqpChannel091) (noZero : 0 ∉ contentType)
    (short : contentType.length ≤ 255) (exchangeShort : exchange.length ≤ 255)
    (routingKeyShort : routingKey.length ≤ 255) (bodyFits : body.length < 2 ^ 63)
    (areBytes : AreBytes body) (hasRoom : body = [] ∨ 8 < c.frameMax.toInt) :
    FramedExactly c exchange routingKey body contentType := by
  have isBody := Pieces.flatten_cut (chunkSize_pos c.frameMax) body 0
  rw [List.drop_zero] at isBody
  refine ⟨_, _, _, written_publish c exchangeShort routingKeyShort body short, ?_, isBody, ?_⟩
  · intro chunk isPiece
    refine ⟨fun b member => areBytes b (Pieces.mem_of_mem_cut _ isPiece member), ?_⟩
    rcases hasRoom with isEmpty | hasRoom
    · subst isEmpty
      rw [Pieces.cut_of_le _ (Nat.zero_le 0)] at isPiece
      exact nomatch isPiece
    · exact length_piece_le c hasRoom isPiece
  · intro receiver deliver chanId rest isDeliver
    exact ⟨_, nextMessage_pieces receiver isDeliver chanId noZero short bodyFits
      (fun _ => Pieces.ne_nil_of_mem_cut _) isBody rest, rfl, rfl, rfl⟩

theorem room_of_framedExactly {c : AmqpChannel091} (exchangeFits : exchange.length < 2 ^ 63)
    (routingKeyFits : routingKey.length < 2 ^ 63)
    (framed : FramedExactly c exchange routingKey body contentType) :
    exchange.length ≤ 255 ∧ routingKey.length ≤ 255 ∧ AreBytes body ∧
      (body = [] ∨ 8 < c.frameMax.toInt) := by
  rcases framed with ⟨method, header, chunks, isWritten, each, isBody, _⟩
  have notLong : ¬ (255 < exchange.length ∨ 255 < routingKey.length) := by
    intro tooLong
    rw [written_tooLong c exchangeFits routingKeyFits tooLong] at isWritten
    exact nomatch isWritten
  refine ⟨by omega, by omega, ?_, ?_⟩
  · rw [← isBody]
    intro b member
    rcases List.mem_flatten.mp member with ⟨chunk, isChunk, inChunk⟩
    exact (each chunk isChunk).1 b inChunk
  · by_cases hasRoom : 8 < c.frameMax.toInt
    · exact .inr hasRoom
    · refine .inl ?_
      rw [← isBody, List.flatten_eq_nil_iff]
      intro chunk isChunk
      have isShort := (each chunk isChunk).2
      rw [length_writeFrame] at isShort
      rw [← List.length_eq_zero_iff]
      omega

theorem length_keyBytes (key : CString) : (AmqpWriter091.keyBytes key).length = 1 + key.length := by
  rw [AmqpWriter091.keyBytes, List.length_cons, AmqpWriter091.length_stringBytes, Nat.add_comm]

theorem length_methodFrame (chanId : Int64) (exchangeShort : exchange.length ≤ 255)
    (routingKeyShort : routingKey.length ≤ 255) :
    (writeFrame 1 chanId (encodeMethodPayload 60 40 (publishArgs exchange routingKey).bytes)).length =
      17 + exchange.length + routingKey.length := by
  rw [length_writeFrame, publishArgs, AmqpWriter091.shortstr_push _ exchangeShort,
    AmqpWriter091.shortstr_push _ routingKeyShort]
  simp only [encodeMethodPayload, writeShort, AmqpWriter091.push, AmqpWriter091.rawBytes, lowBytes,
    AmqpWriter091.octet, AmqpWriter091.new, List.length_append, List.length_map, List.length_cons,
    List.length_nil, length_keyBytes]
  omega

theorem length_headerFrame (chanId : Int64) (body : List Int64) (short : contentType.length ≤ 255) :
    (writeFrame 2 chanId (headerPayload body contentType)).length =
      23 + if contentType = [] then 0 else 1 + contentType.length := by
  rw [length_writeFrame, headerPayload_eq body short]
  simp only [eightBytes, List.length_append, List.length_map, List.length_cons, List.length_nil,
    apply_ite List.length, length_keyBytes]
  omega

/-- No frame at all is longer than negotiated exactly when there is room for the method and for the
header, which are never cut. -/
theorem written_fits_iff (c : AmqpChannel091) (short : contentType.length ≤ 255)
    (exchangeShort : exchange.length ≤ 255) (routingKeyShort : routingKey.length ≤ 255)
    (body : List Int64) : (∀ frame ∈ (publish c exchange routingKey body contentType).written,
        (frame.length : Int) ≤ c.frameMax.toInt) ↔
      (17 + exchange.length + routingKey.length : Nat) ≤ c.frameMax.toInt ∧
        (23 + if contentType = [] then 0 else 1 + contentType.length : Nat) ≤ c.frameMax.toInt := by
  rw [written_publish c exchangeShort routingKeyShort body short, List.forall_mem_cons,
    List.forall_mem_cons, length_methodFrame _ exchangeShort routingKeyShort,
    length_headerFrame _ body short]
  refine ⟨fun fits => ⟨fits.1, fits.2.1⟩, fun fits => ⟨fits.1, fits.2, ?_⟩⟩
  intro frame isFrame
  rcases List.mem_map.mp isFrame with ⟨chunk, isPiece, rfl⟩
  exact length_piece_le c (by omega) isPiece

/-- A message of bytes is framed and received exactly when its names fit into short strings and the
negotiated size leaves room for a body, if there is one; and none of all its frames is longer than
negotiated exactly when the method and the header are not. -/
theorem framedExactly_iff (c : AmqpChannel091) {exchange routingKey contentType : CString}
    {body : List Int64} (noZero : 0 ∉ contentType) (short : contentType.length ≤ 255)
    (exchangeFits : exchange.length < 2 ^ 63) (routingKeyFits : routingKey.length < 2 ^ 63)
    (bodyFits : body.length < 2 ^ 63) :
    (FramedExactly c exchange routingKey body contentType ↔
      exchange.length ≤ 255 ∧ routingKey.length ≤ 255 ∧ AreBytes body ∧
        (body = [] ∨ 8 < c.frameMax.toInt)) ∧
    (exchange.length ≤ 255 → routingKey.length ≤ 255 →
      ((∀ frame ∈ (publish c exchange routingKey body contentType).written,
          (frame.length : Int) ≤ c.frameMax.toInt) ↔
        (17 + exchange.length + routingKey.length : Nat) ≤ c.frameMax.toInt ∧
          (23 + if contentType = [] then 0 else 1 + contentType.length : Nat) ≤ c.frameMax.toInt)) := by
  refine ⟨⟨room_of_framedExactly exchangeFits routingKeyFits, ?_⟩, ?_⟩
  · rintro ⟨exchangeShort, routingKeyShort, areBytes, hasRoom⟩
    exact framedExactly_of_room c noZero short exchangeShort routingKeyShort bodyFits areBytes hasRoom
  · intro exchangeShort routingKeyShort
    exact written_fits_iff c short exchangeShort routingKeyShort body

/-- A body of ten bytes, in frames of at most sixteen bytes. -/
theorem framedExactly_iff_ten :
    FramedExactly ⟨1, 16, [], false, 0⟩ [] [] [1, 2, 3, 4, 5, 6, 7, 8, 9, 10] [116] :=
  (framedExactly_iff ⟨1, 16, [], false, 0⟩ (by decide) (by decide) (by decide) (by decide)
    (by decide)).1.mpr
    ⟨by decide, by decide, areBytes_lowBytes [1, 2, 3, 4, 5, 6, 7, 8, 9, 10], .inr (by decide)⟩

/-- One byte, where the negotiated frames have no room for it, is sent in a frame of nine bytes. -/
theorem oneByte_notFramed : ¬ FramedExactly ⟨1, 8, [], false, 0⟩ [] [] [120] [] := by
  intro framed
  rcases room_of_framedExactly (by decide) (by decide) framed with ⟨_, _, _, isEmpty | hasRoom⟩
  · exact nomatch isEmpty
  · exact absurd hasRoom (by decide)

end Tinox.Amqp.Channels
