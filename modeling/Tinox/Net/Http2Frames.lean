import Mathlib.Data.List.TakeWhile
import Tinox.Net.Connection
import Tinox.Runtime.Map

/-!
# HTTP/2 frames

The frame codec of `Http2Server`.  Its bytes go through strings in both directions, so
they end at the first zero byte.
-/

namespace Tinox.Net

open Segments Tinox.Runtime

/-- `Http2Frame`. -/
structure Http2Frame where
  length : Int64
  type : Int64
  flags : Int64
  streamId : Int64
  payload : List Int64
  deriving DecidableEq

/-- A socket: what is still to be received and what has been sent. -/
structure Socket where
  incoming : Stream
  outgoing : List UInt8

/-- The string in a buffer, up to its first zero byte. -/
def cString (buf : List UInt8) : CString :=
  buf.takeWhile (· != 0)

/-- The loop of `httpServerReadRawBytes`: the buffer is doubled when it is full. -/
def rawLoop (count cap got : Nat) (stream : Stream) : List UInt8 × Stream :=
  if got < count then
    let cap := if got = cap then cap * 2 else cap
    let read := recv (min (count - got) (cap - got)) stream
    if 0 < read.1.length then
      let rest := rawLoop count cap (got + read.1.length) read.2
      (read.1 ++ rest.1, rest.2)
    else ([], read.2)
  else ([], stream)
termination_by count - got
decreasing_by
  rename_i less positive
  exact Nat.sub_lt_sub_left less (Nat.lt_add_of_pos_right positive)

/-- `TINOX_HTTP2_MAX_RAW_READ`. -/
def maxRawRead : Nat :=
  16 * 1024 * 1024

/-- `httpServerReadRawBytes`. -/
def httpServerReadRawBytes (fd : Socket) (count : Int64) : CString × Socket :=
  if count ≤ 0 then ([], fd)
  else
    let count := min count.toInt.toNat maxRawRead
    let cap := if count < 4096 then count else 4096
    let read := rawLoop count (if cap < 1 then 1 else cap) 0 fd.incoming
    (cString read.1, { fd with incoming := read.2 })

/-- `tinox_string_char_code_at`. -/
def charCodeAt (s : CString) (idx : Nat) : Int64 :=
  match s[idx]? with
  | none => -1
  | some b => byteValue b

/-- `Http2Server.readBytes`. -/
def readBytes (fd : Socket) (count : Int64) : List Int64 × Socket :=
  let raw := httpServerReadRawBytes fd count
  ((List.range raw.1.length).map (charCodeAt raw.1), raw.2)

/-- `tinoxBytesToString`. -/
def tinoxBytesToString (bytes : List Int64) : CString :=
  cString (bytes.map lowByte)

/-- `httpServerSendRaw`. -/
def httpServerSendRaw (fd : Socket) (data : CString) : Socket :=
  { fd with outgoing := fd.outgoing ++ data }

/-- `Http2Server.sendBytes`. -/
def sendBytes (fd : Socket) (bytes : List Int64) : Socket :=
  httpServerSendRaw fd (tinoxBytesToString bytes)

/-- `Http2Server.readFrame`. -/
def readFrame (fd : Socket) : Http2Frame × Socket :=
  let header := readBytes fd 9
  let byte (i : Nat) : Int64 := header.1.getD i 0
  if header.1.length < 9 then (⟨0, -1, 0, 0, []⟩, header.2)
  else
    let length := (byte 0 <<< 16) ||| (byte 1 <<< 8) ||| byte 2
    let frameType := byte 3
    let flags := byte 4
    let streamId := ((byte 5 &&& 127) <<< 24) ||| (byte 6 <<< 16) ||| (byte 7 <<< 8) ||| byte 8
    let payload := readBytes header.2 length
    (⟨length, frameType, flags, streamId, payload.1⟩, payload.2)

/-- `Http2Server.writeFrame`. -/
def writeFrame (fd : Socket) (frame : Http2Frame) : Socket :=
  let len := Int64.ofNat frame.payload.length
  sendBytes fd <|
    [(len >>> 16) &&& 255, (len >>> 8) &&& 255, len &&& 255, frame.type &&& 255, frame.flags &&& 255,
      (frame.streamId >>> 24) &&& 127, (frame.streamId >>> 16) &&& 255, (frame.streamId >>> 8) &&& 255,
      frame.streamId &&& 255] ++ frame.payload

/-- A frame that `Http2Frame::new` makes of values within the fields' ranges. -/
structure IsFrame (frame : Http2Frame) : Prop where
  length : frame.length = Int64.ofNat frame.payload.length
  type : bits frame.type < 256
  flags : bits frame.flags < 256
  streamId : bits frame.streamId < 2 ^ 31
  payload : ∀ b ∈ frame.payload, bits b < 256
  short : frame.payload.length < 2 ^ 24

/-- The nine bytes of a frame's header. -/
def headerBytes (frame : Http2Frame) : List UInt8 :=
  [UInt8.ofNat (frame.payload.length / 2 ^ 16), UInt8.ofNat (frame.payload.length / 2 ^ 8),
    UInt8.ofNat frame.payload.length, UInt8.ofNat (bits frame.type), UInt8.ofNat (bits frame.flags),
    UInt8.ofNat (bits frame.streamId / 2 ^ 24), UInt8.ofNat (bits frame.streamId / 2 ^ 16),
    UInt8.ofNat (bits frame.streamId / 2 ^ 8), UInt8.ofNat (bits frame.streamId)]

/-- The bytes of a frame: its header and the payload in full. -/
def frameBytes (frame : Http2Frame) : List UInt8 :=
  headerBytes frame ++ frame.payload.map lowByte

theorem cString_eq_iff {buf : List UInt8} : cString buf = buf ↔ 0 ∉ buf := by
  rw [cString, List.takeWhile_eq_self_iff]
  constructor
  · intro all member
    exact absurd (all 0 member) (by decide)
  · intro noZero b member
    rw [bne_iff_ne]
    rintro rfl
    exact noZero member

theorem length_cString_le (buf : List UInt8) : (cString buf).length ≤ buf.length :=
  (List.takeWhile_prefix _).length_le

theorem length_cString_lt {buf : List UInt8} (zero : 0 ∈ buf) : (cString buf).length < buf.length := by
  apply Nat.lt_of_le_of_ne (length_cString_le buf)
  intro same
  exact cString_eq_iff.mp ((List.takeWhile_prefix _).eq_of_length same) zero

theorem map_charCodeAt (s : CString) : (List.range s.length).map (charCodeAt s) = s.map byteValue := by
  apply List.ext_getElem
  · rw [List.length_map, List.length_range, List.length_map]
  · intro i inside _
    rw [List.length_map, List.length_range] at inside
    rw [List.getElem_map, List.getElem_range, List.getElem_map, charCodeAt,
      List.getElem?_eq_getElem inside]

theorem rawLoop_spec (bytes : List UInt8) {rest : List UInt8} {stream : Stream} {count cap got : Nat}
    (isLength : count - got = bytes.length) (room : got ≤ cap ∧ 0 < cap)
    (isStream : stream.flatten = bytes ++ rest) :
    ∃ later, rawLoop count cap got stream = (bytes, later) ∧ later.flatten = rest := by
  generalize isLeft : bytes.length = left
  induction left using Nat.strongRecOn generalizing bytes stream cap got with
  | _ left ih =>
      rw [rawLoop]
      by_cases less : got < count
      · have some : bytes ≠ [] := by
          rintro rfl
          rw [List.length_nil] at isLength
          omega
        rw [if_pos less]
        generalize isCap : (if got = cap then cap * 2 else cap) = larger
        have room' : got < larger := by
          rw [← isCap]
          split <;> omega
        have within : min (count - got) (larger - got) ≤ bytes.length := isLength ▸ Nat.min_le_left _ _
        have bounded := length_recv_le (min (count - got) (larger - got)) stream
        rcases recv_within (by omega) isStream some within with ⟨head, more, rfl, gotSome, isGot, isMore⟩
        have positive := List.length_pos_of_ne_nil gotSome
        rw [isGot] at bounded
        rw [List.length_append] at isLength isLeft
        have isLeft' : count - (got + head.length) = more.length := by omega
        have room'' : got + head.length ≤ larger ∧ 0 < larger := by omega
        rcases ih more.length (by omega) more isLeft' room'' isMore rfl with ⟨later, isRead, isLater⟩
        refine ⟨later, ?_, isLater⟩
        simp only [isGot, if_pos positive, isRead]
      · have isEmpty : bytes = [] := List.length_eq_zero_iff.mp (by omega)
        subst isEmpty
        rw [if_neg less]
        exact ⟨stream, rfl, isStream⟩

theorem httpServerReadRawBytes_spec (fd : Socket) {count : Int64} {bytes rest : List UInt8}
    (isLength : bits count = bytes.length) (short : bytes.length ≤ maxRawRead)
    (isStream : fd.incoming.flatten = bytes ++ rest) :
    ∃ later, httpServerReadRawBytes fd count = (cString bytes, { fd with incoming := later }) ∧
      later.flatten = rest := by
  have small : bits count < 2 ^ 63 := by
    rw [isLength]
    exact Nat.lt_of_le_of_lt short (by decide)
  have isInt := toInt_of_small small
  by_cases none : count ≤ 0
  · have isZero : count.toInt ≤ 0 := Int64.le_iff_toInt_le.mp none
    have isEmpty : bytes = [] := List.length_eq_zero_iff.mp (by omega)
    subst isEmpty
    refine ⟨fd.incoming, ?_, isStream⟩
    rw [httpServerReadRawBytes, if_pos none]
    rfl
  · have isCount : min count.toInt.toNat maxRawRead = bytes.length := by omega
    have room : ∀ cap : Nat, 0 ≤ (if cap < 1 then 1 else cap) ∧ 0 < (if cap < 1 then 1 else cap) := by
      intro cap
      split <;> omega
    rcases rawLoop_spec bytes (Nat.sub_zero _)
      (room (if bytes.length < 4096 then bytes.length else 4096)) isStream with ⟨later, isRead, isLater⟩
    refine ⟨later, ?_, isLater⟩
    rw [httpServerReadRawBytes, if_neg none]
    simp only [isCount, isRead]

theorem readBytes_spec (fd : Socket) {count : Int64} {bytes rest : List UInt8}
    (isLength : bits count = bytes.length) (short : bytes.length ≤ maxRawRead)
    (isStream : fd.incoming.flatten = bytes ++ rest) :
    ∃ later, readBytes fd count = ((cString bytes).map byteValue, { fd with incoming := later }) ∧
      later.flatten = rest := by
  rcases httpServerReadRawBytes_spec fd isLength short isStream with ⟨later, isRead, isLater⟩
  refine ⟨later, ?_, isLater⟩
  rw [readBytes, isRead, map_charCodeAt]

theorem bits_and_127 (x : Int64) : bits (x &&& 127) = bits x % 128 := by
  rw [bits, Int64.toBitVec_and, BitVec.toNat_and]
  exact Nat.and_two_pow_sub_one_eq_mod _ 7

theorem lowByte_shifted {x s : Int64} {k : Nat} (notNegative : bits x < 2 ^ 63)
    (isShift : (s.toBitVec.smod 64).toNat = k) :
    lowByte ((x >>> s) &&& 255) = UInt8.ofNat (bits x / 2 ^ k) := by
  apply UInt8.toNat_inj.mp
  rw [toNat_lowByte, bits_and, bits_shiftRight notNegative isShift, Nat.mod_mod, UInt8.toNat_ofNat']

theorem lowByte_ofNat (x : Int64) : lowByte (x &&& 255) = UInt8.ofNat (bits x) := by
  apply UInt8.toNat_inj.mp
  rw [toNat_lowByte, bits_and, Nat.mod_mod, UInt8.toNat_ofNat']

theorem writeFrame_spec (fd : Socket) {frame : Http2Frame} (isFrame : IsFrame frame) :
    (writeFrame fd frame).outgoing = fd.outgoing ++ cString (frameBytes frame) := by
  have short := isFrame.short
  have isStream := isFrame.streamId
  have isLength : bits (Int64.ofNat frame.payload.length) = frame.payload.length := bits_ofNat (by omega)
  have notNegative : bits (Int64.ofNat frame.payload.length) < 2 ^ 63 := by omega
  have isTop : lowByte ((frame.streamId >>> 24) &&& 127) = UInt8.ofNat (bits frame.streamId / 2 ^ 24) := by
    apply UInt8.toNat_inj.mp
    have isShifted := @bits_shiftRight frame.streamId 24 24 (by omega) (by decide)
    rw [toNat_lowByte, bits_and_127, isShifted, UInt8.toNat_ofNat']
    omega
  have isHeader : [lowByte ((Int64.ofNat frame.payload.length >>> 16) &&& 255),
      lowByte ((Int64.ofNat frame.payload.length >>> 8) &&& 255),
      lowByte (Int64.ofNat frame.payload.length &&& 255), lowByte (frame.type &&& 255),
      lowByte (frame.flags &&& 255), lowByte ((frame.streamId >>> 24) &&& 127),
      lowByte ((frame.streamId >>> 16) &&& 255), lowByte ((frame.streamId >>> 8) &&& 255),
      lowByte (frame.streamId &&& 255)] = headerBytes frame := by
    rw [lowByte_shifted notNegative (k := 16) (by decide), lowByte_shifted notNegative (k := 8) (by decide),
      lowByte_ofNat, lowByte_ofNat, lowByte_ofNat, isTop,
      lowByte_shifted (k := 16) (by omega) (by decide), lowByte_shifted (k := 8) (by omega) (by decide),
      lowByte_ofNat, isLength, headerBytes]
  rw [frameBytes, ← isHeader]
  rfl

theorem bits_byte_shiftLeft (b : UInt8) {s : Int64} {k : Nat}
    (isShift : (s.toBitVec.smod 64).toNat = k) (small : k ≤ 32) :
    bits (byteValue b <<< s) = b.toNat * 2 ^ k := by
  have isByte := b.toNat_lt
  have bounded : b.toNat * 2 ^ k < 2 ^ 8 * 2 ^ 32 :=
    Nat.mul_lt_mul_of_lt_of_le isByte (Nat.pow_le_pow_right (by decide) small) (by decide)
  rw [bits_shiftLeft isShift, bits_byteValue]
  rw [bits_byteValue]
  exact Nat.lt_trans bounded (by decide)

theorem bits_three (a b c : UInt8) :
    bits ((byteValue a <<< 16) ||| (byteValue b <<< 8) ||| byteValue c) =
      (a.toNat * 2 ^ 8 + b.toNat) * 2 ^ 8 + c.toNat := by
  have smallB := b.toNat_lt
  have high := @bits_byte_shiftLeft a 16 16 (by decide) (by decide)
  have middle := @bits_byte_shiftLeft b 8 8 (by decide) (by decide)
  have both : bits ((byteValue a <<< 16) ||| (byteValue b <<< 8)) =
      (a.toNat * 2 ^ 8 + b.toNat) * 2 ^ 8 := by
    rw [bits_or high (by rw [middle]; omega), middle]
    omega
  rw [bits_or both (by rw [bits_byteValue]; exact c.toNat_lt), bits_byteValue]

theorem bits_four (a b c d : UInt8) :
    bits (((byteValue a &&& 127) <<< 24) ||| (byteValue b <<< 16) ||| (byteValue c <<< 8) |||
      byteValue d) =
      ((a.toNat % 128 * 2 ^ 8 + b.toNat) * 2 ^ 8 + c.toNat) * 2 ^ 8 + d.toNat := by
  have smallB := b.toNat_lt
  have smallC := c.toNat_lt
  have isTop : bits (byteValue a &&& 127) = a.toNat % 128 := by rw [bits_and_127, bits_byteValue]
  have first : bits ((byteValue a &&& 127) <<< 24) = a.toNat % 128 * 2 ^ 24 := by
    rw [bits_shiftLeft (k := 24) (by decide) (by rw [isTop]; omega), isTop]
  have second := @bits_byte_shiftLeft b 16 16 (by decide) (by decide)
  have third := @bits_byte_shiftLeft c 8 8 (by decide) (by decide)
  have two : bits (((byteValue a &&& 127) <<< 24) ||| (byteValue b <<< 16)) =
      (a.toNat % 128 * 2 ^ 8 + b.toNat) * 2 ^ 16 := by
    rw [bits_or first (by rw [second]; omega), second]
    omega
  have three : bits (((byteValue a &&& 127) <<< 24) ||| (byteValue b <<< 16) |||
      (byteValue c <<< 8)) = ((a.toNat % 128 * 2 ^ 8 + b.toNat) * 2 ^ 8 + c.toNat) * 2 ^ 8 := by
    rw [bits_or two (by rw [third]; omega), third]
    omega
  rw [bits_or three (by rw [bits_byteValue]; exact d.toNat_lt), bits_byteValue]

theorem length_headerBytes (frame : Http2Frame) : (headerBytes frame).length = 9 :=
  rfl

theorem nine_le {frame : Http2Frame} : (headerBytes frame).length ≤ maxRawRead := by
  rw [length_headerBytes, maxRawRead]
  decide

section Reading

variable {fd : Socket} {frame : Http2Frame} {rest : List UInt8}

theorem readFrame_zero (zero : 0 ∈ headerBytes frame)
    (isStream : fd.incoming.flatten = frameBytes frame ++ rest) :
    (readFrame fd).1 = ⟨0, -1, 0, 0, []⟩ := by
  rw [frameBytes, List.append_assoc] at isStream
  have isNine : bits 9 = (headerBytes frame).length := rfl
  rcases readBytes_spec fd isNine nine_le isStream with ⟨later, isRead, -⟩
  have short : ((cString (headerBytes frame)).map byteValue).length < 9 := by
    rw [List.length_map]
    exact length_cString_lt zero
  rw [readFrame, isRead]
  simp only [if_pos short]

theorem readFrame_spec (isFrame : IsFrame frame) (noZero : 0 ∉ headerBytes frame)
    (isStream : fd.incoming.flatten = frameBytes frame ++ rest) :
    ∃ later, readFrame fd =
        ({ frame with payload := (cString (frame.payload.map lowByte)).map byteValue },
          { fd with incoming := later }) ∧ later.flatten = rest := by
  have short := isFrame.short
  have isType := isFrame.type
  have isFlags := isFrame.flags
  have isId := isFrame.streamId
  rw [frameBytes, List.append_assoc] at isStream
  have isNine : bits 9 = (headerBytes frame).length := rfl
  rcases readBytes_spec fd isNine nine_le isStream with ⟨middle, isRead, isPayload⟩
  rw [cString_eq_iff.mpr noZero] at isRead
  have isLength : (byteValue (UInt8.ofNat (frame.payload.length / 2 ^ 16)) <<< 16) |||
      (byteValue (UInt8.ofNat (frame.payload.length / 2 ^ 8)) <<< 8) |||
      byteValue (UInt8.ofNat frame.payload.length) = frame.length := by
    apply bits_inj.mp
    rw [bits_three, UInt8.toNat_ofNat', UInt8.toNat_ofNat', UInt8.toNat_ofNat', isFrame.length,
      bits_ofNat (by omega)]
    omega
  have isByte : ∀ x : Int64, bits x < 256 → byteValue (UInt8.ofNat (bits x)) = x := by
    intro x small
    apply bits_inj.mp
    rw [bits_byteValue, UInt8.toNat_ofNat', Nat.mod_eq_of_lt small]
  have isStreamId : ((byteValue (UInt8.ofNat (bits frame.streamId / 2 ^ 24)) &&& 127) <<< 24) |||
      (byteValue (UInt8.ofNat (bits frame.streamId / 2 ^ 16)) <<< 16) |||
      (byteValue (UInt8.ofNat (bits frame.streamId / 2 ^ 8)) <<< 8) |||
      byteValue (UInt8.ofNat (bits frame.streamId)) = frame.streamId := by
    apply bits_inj.mp
    rw [bits_four, UInt8.toNat_ofNat', UInt8.toNat_ofNat', UInt8.toNat_ofNat', UInt8.toNat_ofNat']
    omega
  have isSize : bits frame.length = (frame.payload.map lowByte).length := by
    rw [isFrame.length, bits_ofNat (by omega), List.length_map]
  have bounded : (frame.payload.map lowByte).length ≤ maxRawRead := by
    rw [List.length_map, maxRawRead]
    omega
  rcases readBytes_spec { fd with incoming := middle } isSize bounded isPayload with
    ⟨later, isBody, isRest⟩
  refine ⟨later, ?_, isRest⟩
  have nine : ¬ ((headerBytes frame).map byteValue).length < 9 := by
    rw [List.length_map, length_headerBytes]
    exact Nat.lt_irrefl 9
  rw [readFrame, isRead]
  simp only [if_neg nine]
  simp only [headerBytes, List.map_cons, List.getD_cons_zero, List.getD_cons_succ, isLength,
    isStreamId, isBody, isByte _ isType, isByte _ isFlags]

end Reading

/-- The frame is written in full, and read from any stream that starts with its bytes, exactly if
none of its bytes is zero. -/
theorem frame_survives_iff {frame : Http2Frame} (isFrame : IsFrame frame) :
    ((∀ fd, (writeFrame fd frame).outgoing = fd.outgoing ++ frameBytes frame) ↔
      0 ∉ frameBytes frame) ∧
    ((∀ (fd : Socket) (rest : List UInt8), fd.incoming.flatten = frameBytes frame ++ rest →
        ∃ later, readFrame fd = (frame, { fd with incoming := later }) ∧ later.flatten = rest) ↔
      0 ∉ frameBytes frame) := by
  constructor
  · rw [← cString_eq_iff]
    constructor
    · intro written
      have isWritten := written ⟨[], []⟩
      rw [writeFrame_spec _ isFrame] at isWritten
      exact isWritten
    · intro whole fd
      rw [writeFrame_spec fd isFrame, whole]
  · constructor
    · intro reads zero
      rcases reads ⟨[frameBytes frame], []⟩ [] (List.flatten_cons) with ⟨later, isRead, -⟩
      have isStream : (⟨[frameBytes frame], []⟩ : Socket).incoming.flatten = frameBytes frame ++ [] :=
        List.flatten_cons
      by_cases inHeader : 0 ∈ headerBytes frame
      · have isEnd := readFrame_zero inHeader isStream
        rw [isRead] at isEnd
        have isType := isFrame.type
        rw [congrArg Http2Frame.type isEnd] at isType
        exact absurd isType (by decide)
      · rcases readFrame_spec isFrame inHeader isStream with ⟨later', isCut, -⟩
        rw [isRead] at isCut
        have samePayload := congrArg (fun read => (Http2Frame.payload read.1).length) isCut
        have inPayload : 0 ∈ frame.payload.map lowByte :=
          (List.mem_append.mp zero).resolve_left inHeader
        have shorter := length_cString_lt inPayload
        rw [List.length_map] at shorter
        simp only [List.length_map] at samePayload
        omega
    · intro noZero fd rest isStream
      rw [frameBytes, List.mem_append, not_or] at noZero
      rcases readFrame_spec isFrame noZero.1 isStream with ⟨later, isRead, isRest⟩
      refine ⟨later, ?_, isRest⟩
      have isPayload : (frame.payload.map lowByte).map byteValue = frame.payload := by
        rw [List.map_map]
        conv_rhs => rw [← List.map_id frame.payload]
        apply List.map_congr_left
        intro b member
        exact byteValue_lowByte (isFrame.payload b member)
      rw [isRead, cString_eq_iff.mpr noZero.2, isPayload]

/-- A frame none of whose bytes is zero. -/
def longFrame : Http2Frame :=
  ⟨65793, 1, 1, 16843009, List.replicate 65793 1⟩

theorem longFrame_survives :
    (∀ fd, (writeFrame fd longFrame).outgoing = fd.outgoing ++ frameBytes longFrame) ∧
    ∀ (fd : Socket) (rest : List UInt8), fd.incoming.flatten = frameBytes longFrame ++ rest →
      ∃ later, readFrame fd = (longFrame, { fd with incoming := later }) ∧ later.flatten = rest := by
  have isLength : longFrame.payload.length = 65793 := List.length_replicate
  have isFrame : IsFrame longFrame := by
    constructor
    · rw [isLength]
      rfl
    · decide
    · decide
    · decide
    · intro b member
      rw [List.eq_of_mem_replicate member]
      decide
    · rw [isLength]
      decide
  have noZero : 0 ∉ frameBytes longFrame := by
    rw [frameBytes, List.mem_append, headerBytes, isLength]
    rintro (inHeader | inPayload)
    · revert inHeader
      decide
    · rcases List.mem_map.mp inPayload with ⟨b, member, isZero⟩
      rw [List.eq_of_mem_replicate member] at isZero
      exact absurd isZero (by decide)
  exact ⟨(frame_survives_iff isFrame).1.mpr noZero, (frame_survives_iff isFrame).2.mpr noZero⟩

/-- The acknowledgement of settings starts with a zero byte: nothing of it is written, and it is
read as the end of the connection. -/
theorem settingsAck_lost : IsFrame ⟨0, 4, 1, 0, []⟩ ∧
    frameBytes ⟨0, 4, 1, 0, []⟩ = [0, 0, 0, 4, 1, 0, 0, 0, 0] ∧
    (writeFrame ⟨[], []⟩ ⟨0, 4, 1, 0, []⟩).outgoing = [] ∧
    (readFrame ⟨[[0, 0, 0, 4, 1, 0, 0, 0, 0]], []⟩).1 = ⟨0, -1, 0, 0, []⟩ := by
  have isFrame : IsFrame ⟨0, 4, 1, 0, []⟩ := by
    constructor
    · rfl
    · decide
    · decide
    · decide
    · nofun
    · decide
  refine ⟨isFrame, by decide, ?_, ?_⟩
  · rw [writeFrame_spec _ isFrame]
    decide
  · exact @readFrame_zero _ ⟨0, 4, 1, 0, []⟩ [] (by decide) rfl

end Tinox.Net
