import Mathlib.Algebra.GroupWithZero.Nat
import Tinox.Net.WsMessages

/-!
# WebSocket protocol errors

Frames as the protocol allows and forbids them, and at which of the forbidden ones
`Ws.readMessageGeneric` ends the connection with an error.
-/

namespace Tinox.Net

open Segments

/-- The cap of a frame and of an assembled message. -/
def maxMessage : Nat := 16777216

/-- A frame with any bits in its first byte. -/
structure RawFrame extends Body where
  fin : Bool
  rsv1 : Bool
  rsv2 : Bool
  rsv3 : Bool
  opcode : Fin 16
  masked : Bool
  small : payload.length < 2 ^ 63

/-- The first byte of a frame. -/
def firstByte (fin rsv1 rsv2 rsv3 : Bool) (opcode : Fin 16) : Int64 :=
  (if fin then 0x80 else 0) ||| (if rsv1 then 0x40 else 0) ||| (if rsv2 then 0x20 else 0) |||
    (if rsv3 then 0x10 else 0) ||| Int64.ofNat opcode

namespace RawFrame

def wire (f : RawFrame) : List UInt8 :=
  (firstByte f.fin f.rsv1 f.rsv2 f.rsv3 f.opcode ::
    lengthBytes (if f.masked then 0x80 else 0) (Int64.ofNat f.payload.length) ++
    bodyBytes f.masked f.mask f.payload).map lowByte

/-- Close, ping or pong: the opcodes that `Ws.readFrameGeneric` takes for control frames. -/
def isControl (f : RawFrame) : Bool :=
  decide (8 ≤ f.opcode.val ∧ f.opcode.val ≤ 10)

/-- The frame that is read when nothing is wrong with it. -/
def read (f : RawFrame) : WsFrame :=
  ⟨f.fin, Int64.ofNat f.opcode, f.payload, f.rsv1⟩

end RawFrame

/-- Nothing has been assembled. -/
def Assembly.fresh : Assembly :=
  ⟨false, -1, false, []⟩

/-- The message is compressed when its first frame says so. -/
def Assembly.compresses (s : Assembly) (f : RawFrame) : Bool :=
  if s.assembling then s.msgCompressed else f.rsv1

/-- What has been assembled after a frame. -/
def Assembly.after (s : Assembly) (f : RawFrame) : Assembly :=
  if f.isControl then s
  else if f.fin then Assembly.fresh
  else if s.assembling then { s with payload := s.payload ++ f.payload }
  else ⟨true, Int64.ofNat f.opcode, f.rsv1, f.payload⟩

/-- A property of every frame and what has been assembled before it. -/
def Each (rule : Assembly → RawFrame → Prop) : Assembly → List RawFrame → Prop
  | _, [] => True
  | s, f :: frames => rule s f ∧ Each rule (s.after f) frames

/-- What has been assembled after frames. -/
def Assembly.afterAll (s : Assembly) (frames : List RawFrame) : Assembly :=
  frames.foldl Assembly.after s

/-! ## The protocol -/

/-- A frame that may stand where it does: its masking is that of its direction, its reserved bits
and opcode have a meaning, a control frame is short and in one piece, and a data frame starts a
message or continues the one that is under way. -/
structure Permitted (masked compressed : Bool) (s : Assembly) (f : RawFrame) : Prop where
  masking : f.masked = masked
  reserved : f.rsv2 = false ∧ f.rsv3 = false
  deflated : f.rsv1 = true → compressed = true ∧ (f.opcode.val = 1 ∨ f.opcode.val = 2)
  known : f.opcode.val ≤ 2 ∨ 8 ≤ f.opcode.val ∧ f.opcode.val ≤ 10
  control : 8 ≤ f.opcode.val → f.fin = true ∧ f.payload.length ≤ 125
  continuation : f.opcode.val = 0 → s.assembling = true
  start : f.opcode.val = 1 ∨ f.opcode.val = 2 → s.assembling = false

section Reading

/- `tinoxDeflateRaw`, zlib's `inflate` of all its input (`none` when it fails), and the values of
the calls of `randomInt(0, 256)` for each frame that is written. -/
variable (deflateRaw : List Int64 → List Int64) (inflate : List Int64 → Option (List Int64))
  (random : Nat → Nat → Int64) (maskOutgoing masked compressed : Bool)

/-- `tinoxInflateRaw` with `wsLastInflateOk`: the tail of a flushed block is added, and more than
the cap is an error. -/
def tinoxInflateRaw (bytes : List Int64) : Option (List Int64) :=
  match inflate (bytes ++ [0x00, 0x00, 0xff, 0xff]) with
  | none => none
  | some out => if maxMessage < out.length then none else some out

/-- A frame whose header is accepted. -/
structure HeaderAccepted (f : RawFrame) : Prop where
  masking : f.masked = masked
  reserved : f.rsv2 = false ∧ f.rsv3 = false
  deflated : f.rsv1 = true → compressed = true ∧ f.isControl = false
  control : f.isControl = true → f.fin = true ∧ f.payload.length ≤ 125

/-- A message that can be taken in: it stays below the cap while it goes on, and is inflated at
its end. -/
structure Fits (s : Assembly) (f : RawFrame) : Prop where
  frame : f.payload.length ≤ maxMessage
  goesOn : f.fin = false → (s.payload ++ f.payload).length ≤ maxMessage
  ends : f.fin = true → s.compresses f = true →
    (tinoxInflateRaw inflate (s.payload ++ f.payload)).isSome

/-- A frame at which the loop goes on or returns a message. -/
structure Accepted (s : Assembly) (f : RawFrame) : Prop where
  header : HeaderAccepted masked compressed f
  notClose : f.opcode.val ≠ 8
  expected : f.isControl = false → (f.opcode.val = 0 ↔ s.assembling = true)
  fits : f.isControl = false → Fits inflate s f

/-- A forbidden frame that is taken for a permitted one: a reserved opcode where a message may
start, or RSV1 on a continuation. -/
structure Overlooked (s : Assembly) (f : RawFrame) : Prop where
  masking : f.masked = masked
  reserved : f.rsv2 = false ∧ f.rsv3 = false
  deflated : f.rsv1 = true → compressed = true
  kind : s.assembling = false ∧ (3 ≤ f.opcode.val ∧ f.opcode.val ≤ 7 ∨ 11 ≤ f.opcode.val) ∨
    s.assembling = true ∧ f.opcode.val = 0 ∧ f.rsv1 = true
  fits : Fits inflate s f

/-- The message that a last frame completes. -/
def completed (s : Assembly) (f : RawFrame) : WsFrame :=
  ⟨true, if s.assembling then s.msgOpcode else Int64.ofNat f.opcode,
    if s.compresses f then (tinoxInflateRaw inflate (s.payload ++ f.payload)).getD []
    else s.payload ++ f.payload, false⟩

/-- The messages that frames complete. -/
def delivered (s : Assembly) : List RawFrame → List WsFrame
  | [] => []
  | f :: frames =>
      (if f.isControl = false ∧ f.fin = true then [completed inflate s f] else []) ++
        delivered (s.after f) frames

/-- A last fragment that does not take its message over the cap. -/
def EndsWithin (s : Assembly) (f : RawFrame) : Prop :=
  f.isControl = false → f.fin = true → s.compresses f = false →
    (s.payload ++ f.payload).length ≤ maxMessage

/-- Calls of `Ws.readMessageGeneric`, the first of them in the middle of a message. -/
def readFrom (s : Assembly) (n : Nat) (conn : TinoxConn) (count : Nat) :
    List WsFrame × TinoxConn × Nat :=
  let message := readMessageLoop deflateRaw (tinoxInflateRaw inflate) random maskOutgoing masked conn
    count s
  let rest := readMessages deflateRaw (tinoxInflateRaw inflate) random maskOutgoing masked n
    message.2.1 message.2.2
  (message.1 :: rest.1, rest.2)

/-- The end of the connection: an error that is returned behind a close frame. -/
def Errs (conn : TinoxConn) (result : WsFrame × TinoxConn × Nat) : Prop :=
  ∃ mask code, result.1 = ⟨true, -2, [], false⟩ ∧
    result.2.1.outgoing = conn.outgoing ++ wireFrame true 8 maskOutgoing mask code

/-- Calls of `Ws.readMessageGeneric` return the messages of the frames before, and the call that
meets the frame returns an error after it has sent a close frame. -/
def Detected (before : List RawFrame) (f : RawFrame) : Prop :=
  ∀ (conn : TinoxConn) (count : Nat) (rest : List UInt8), conn.wsCompressed = compressed →
    conn.incoming.flatten = before.flatMap RawFrame.wire ++ (f.wire ++ rest) →
      ∃ sent code mask last count',
        readMessages deflateRaw (tinoxInflateRaw inflate) random maskOutgoing masked
            ((delivered inflate Assembly.fresh before).length + 1) conn count =
          (delivered inflate Assembly.fresh before ++ [⟨true, -2, [], false⟩], last, count') ∧
        last.outgoing = conn.outgoing ++ sent ++ wireFrame true 8 maskOutgoing mask code

end Reading

/-! ## Headers -/

variable {masked : Bool} {f : RawFrame} {conn : TinoxConn} {rest : List UInt8}

theorem first_byte_raw : ∀ (fin rsv1 rsv2 rsv3 : Bool) (opcode : Fin 16),
    let b0 := byteValue (lowByte (firstByte fin rsv1 rsv2 rsv3 opcode))
    (b0 &&& 0x80 != 0) = fin ∧ (b0 &&& 0x40 != 0) = rsv1 ∧ (b0 &&& 0x30 != 0) = (rsv2 || rsv3) ∧
      b0 &&& 0x0f = Int64.ofNat opcode := by
  decide

theorem isControl_opcode : ∀ opcode : Fin 16,
    decide ((8 : Int64) ≤ Int64.ofNat opcode ∧ Int64.ofNat opcode ≤ 10) =
      decide (8 ≤ opcode.val ∧ opcode.val ≤ 10) := by
  decide

/-- The condition under which `Ws.readFrameGeneric` rejects a header. -/
def rejects (masked compressed : Bool) (f : RawFrame) : Bool :=
  (f.rsv2 || f.rsv3) || (f.rsv1 && (f.isControl || !compressed)) || f.masked != masked

theorem headerAccepted_iff {compressed : Bool} :
    HeaderAccepted masked compressed f ↔ rejects masked compressed f = false ∧
      ¬ (f.isControl = true ∧ (f.fin = false ∨ 125 < f.payload.length)) := by
  constructor
  · intro accepted
    constructor
    · rw [rejects, accepted.masking, accepted.reserved.1, accepted.reserved.2]
      cases isDeflated : f.rsv1 with
      | false => simp
      | true => simp [accepted.deflated isDeflated]
    · rintro ⟨isControl, notFinal | long⟩
      · rw [(accepted.control isControl).1] at notFinal
        cases notFinal
      · exact Nat.not_lt.mpr (accepted.control isControl).2 long
  · rintro ⟨notRejected, short⟩
    simp only [rejects, Bool.or_eq_false_iff, Bool.and_eq_false_iff, bne_eq_false_iff_eq,
      Bool.not_eq_false'] at notRejected
    rcases notRejected with ⟨⟨reserved, deflated⟩, masking⟩
    refine ⟨masking, reserved, fun isDeflated => ?_, fun isControl => ?_⟩
    · rcases deflated with notDeflated | ⟨notControl, isCompressed⟩
      · rw [isDeflated] at notDeflated
        cases notDeflated
      · exact ⟨isCompressed, notControl⟩
    · constructor
      · by_contra notFinal
        exact short ⟨isControl, Or.inl (by simpa using notFinal)⟩
      · by_contra long
        exact short ⟨isControl, Or.inr (Nat.lt_of_not_le long)⟩

theorem readFrameGeneric_header (f : RawFrame) {after : TinoxConn} {second : UInt8}
    (isRead : httpConnReadN conn 2 = ([byteValue (lowByte (firstByte f.fin f.rsv1 f.rsv2 f.rsv3 f.opcode)), byteValue second], after))
    (isMasked : (byteValue second &&& 0x80 != 0) = f.masked)
    (isOver : decide (125 < byteValue second &&& 0x7f) = decide (125 < f.payload.length)) :
    readFrameGeneric conn masked =
      if rejects masked conn.wsCompressed f = true then (⟨true, -2, [], false⟩, after)
      else if (f.isControl && (!f.fin || decide (125 < f.payload.length))) = true then
        (⟨true, -2, [], false⟩, after)
      else
        match readLength after (byteValue second &&& 0x7f) with
        | (none, conn) => (⟨true, -1, [], false⟩, conn)
        | (some plen, conn) =>
            if plen < 0 ∨ 16777216 < plen then (⟨true, -2, [], false⟩, conn)
            else
              match readMask conn f.masked with
              | (none, conn) => (⟨true, -1, [], false⟩, conn)
              | (some mask, conn) =>
                  match readPayload conn plen f.masked mask with
                  | (none, conn) => (⟨true, -1, [], false⟩, conn)
                  | (some payload, conn) => (⟨f.fin, Int64.ofNat f.opcode, payload, f.rsv1⟩, conn) := by
  rcases first_byte_raw f.fin f.rsv1 f.rsv2 f.rsv3 f.opcode with ⟨isFin, isRsv1, isRsvOther, isOpcode⟩
  have isControl : decide ((8 : Int64) ≤ Int64.ofNat f.opcode ∧ Int64.ofNat f.opcode ≤ 10) =
      f.isControl := isControl_opcode f.opcode
  have two : ¬ [byteValue (lowByte (firstByte f.fin f.rsv1 f.rsv2 f.rsv3 f.opcode)),
      byteValue second].length < 2 := Nat.lt_irrefl 2
  rw [readFrameGeneric, isRead]
  simp only [if_neg two, List.getD_cons_zero, List.getD_cons_succ]
  rw [isRsvOther, isRsv1, isOpcode, isControl, isMasked, isFin, isOver]
  rfl

theorem raw_header (f : RawFrame) (isStream : conn.incoming.flatten = f.wire ++ rest) :
    ∃ second afterHeader afterLength, httpConnReadN conn 2 =
        ([byteValue (lowByte (firstByte f.fin f.rsv1 f.rsv2 f.rsv3 f.opcode)), byteValue second],
          { conn with incoming := afterHeader }) ∧
      (byteValue second &&& 0x80 != 0) = f.masked ∧
      decide (125 < byteValue second &&& 0x7f) = decide (125 < f.payload.length) ∧
      readLength { conn with incoming := afterHeader } (byteValue second &&& 0x7f) =
        (some (Int64.ofNat f.payload.length), { conn with incoming := afterLength }) ∧
      afterLength.flatten = (bodyBytes f.masked f.mask f.payload).map lowByte ++ rest := by
  rcases length_spec f.small f.masked with
    ⟨second, ext, isText, isMasked, isShort, isLong, isLength⟩
  rw [RawFrame.wire, List.map_append, List.map_cons, isText] at isStream
  have isHeader : conn.incoming.flatten =
      [lowByte (firstByte f.fin f.rsv1 f.rsv2 f.rsv3 f.opcode), second] ++
        (ext ++ ((bodyBytes f.masked f.mask f.payload).map lowByte ++ rest)) := by
    rw [isStream, List.append_assoc]
    rfl
  rcases @httpConnReadN_spec conn 2 _ _ rfl (by decide) isHeader with ⟨afterHeader, isRead, isExt⟩
  rcases isLength { conn with incoming := afterHeader } _ isExt with ⟨afterLength, isPlen, isBody⟩
  refine ⟨second, afterHeader, afterLength, isRead, isMasked, ?_, isPlen, isBody⟩
  by_cases long : 125 < f.payload.length
  · rw [decide_eq_true long, decide_eq_true (isLong long)]
  · rw [isShort (Nat.le_of_not_lt long), decide_eq_false long]
    apply decide_eq_false
    exact fun more => long ((ofNat_lt (by decide) f.small).mp more)

theorem badControl_iff : (f.isControl && (!f.fin || decide (125 < f.payload.length))) = true ↔
      f.isControl = true ∧ (f.fin = false ∨ 125 < f.payload.length) := by
  simp only [Bool.and_eq_true, Bool.or_eq_true, Bool.not_eq_true', decide_eq_true_eq]

theorem tooLong_iff (f : RawFrame) : Int64.ofNat f.payload.length < 0 ∨
    16777216 < Int64.ofNat f.payload.length ↔ maxMessage < f.payload.length := by
  have notNegative : ¬ Int64.ofNat f.payload.length < 0 := fun negative =>
    Nat.not_lt_zero _ ((ofNat_lt f.small (by decide)).mp negative)
  rw [or_iff_right notNegative]
  exact ofNat_lt (by decide) f.small

theorem readFrameGeneric_accepted (isStream : conn.incoming.flatten = f.wire ++ rest)
    (accepted : HeaderAccepted masked conn.wsCompressed f) (short : f.payload.length ≤ maxMessage) :
    ∃ later, readFrameGeneric conn masked = (f.read, { conn with incoming := later }) ∧
      later.flatten = rest := by
  rcases headerAccepted_iff.mp accepted with ⟨notRejected, notBad⟩
  rcases raw_header f isStream with
    ⟨second, afterHeader, afterLength, isRead, isMasked, isOver, isPlen, isBody⟩
  rcases @body_spec _ f.isBytes short f.masked _ f.four { conn with incoming := afterLength } _
    isBody with ⟨mask, afterMask, later, isMask, isPayload, isRest⟩
  refine ⟨later, ?_, isRest⟩
  rw [readFrameGeneric_header f isRead isMasked isOver, notRejected, if_neg (by decide),
    if_neg (fun bad => notBad (badControl_iff.mp bad)), isPlen]
  dsimp only
  rw [if_neg (fun long => Nat.not_lt.mpr short ((tooLong_iff f).mp long)), isMask]
  dsimp only
  rw [isPayload]
  rfl

theorem readFrameGeneric_rejected (isStream : conn.incoming.flatten = f.wire ++ rest)
    (fault : ¬ HeaderAccepted masked conn.wsCompressed f ∨ maxMessage < f.payload.length) :
    ∃ later, readFrameGeneric conn masked =
      (⟨true, -2, [], false⟩, { conn with incoming := later }) := by
  rcases raw_header f isStream with
    ⟨second, afterHeader, afterLength, isRead, isMasked, isOver, isPlen, isBody⟩
  rw [readFrameGeneric_header f isRead isMasked isOver]
  by_cases rejected : rejects masked conn.wsCompressed f = true
  · rw [if_pos rejected]
    exact ⟨afterHeader, rfl⟩
  · rw [if_neg rejected]
    by_cases badControl : f.isControl = true ∧ (f.fin = false ∨ 125 < f.payload.length)
    · rw [if_pos (badControl_iff.mpr badControl)]
      exact ⟨afterHeader, rfl⟩
    · have long := fault.resolve_left
        (not_not.mpr (headerAccepted_iff.mpr ⟨by simpa using rejected, badControl⟩))
      rw [if_neg (fun bad => badControl (badControl_iff.mp bad)), isPlen]
      dsimp only
      rw [if_pos ((tooLong_iff f).mpr long)]
      exact ⟨afterLength, rfl⟩

/-! ## One frame -/

variable {s : Assembly}

/-- The opcodes that the loop of `Ws.readMessageGeneric` compares with. -/
theorem opcode_eq : ∀ opcode : Fin 16, (Int64.ofNat opcode = 9 ↔ opcode.val = 9) ∧
    (Int64.ofNat opcode = 10 ↔ opcode.val = 10) ∧ (Int64.ofNat opcode = 8 ↔ opcode.val = 8) ∧
    Int64.ofNat opcode ≠ -1 ∧ Int64.ofNat opcode ≠ -2 ∧
    (Int64.ofNat opcode = 0 ↔ opcode.val = 0) := by
  decide

/-- What the loop keeps of what it assembles. -/
structure Sound (s : Assembly) : Prop where
  empty : s.assembling = false → s.payload = []
  opcode : s.assembling = true → ∃ code : Fin 16, s.msgOpcode = Int64.ofNat code

theorem sound_fresh : Sound Assembly.fresh where
  empty _ := rfl
  opcode := nofun

theorem Sound.after (sound : Sound s) (f : RawFrame) : Sound (s.after f) := by
  rw [Assembly.after]
  split
  · exact sound
  · split
    · exact sound_fresh
    · split
      · next assembling =>
          refine ⟨fun notAssembling => ?_, fun _ => sound.opcode assembling⟩
          rw [assembling] at notAssembling
          cases notAssembling
      · exact ⟨nofun, fun _ => ⟨f.opcode, rfl⟩⟩

theorem Sound.afterAll (sound : Sound s) (frames : List RawFrame) : Sound (s.afterAll frames) := by
  induction frames generalizing s with
  | nil => exact sound
  | cons f frames ih => exact ih (sound.after f)

section Reading

variable (deflateRaw : List Int64 → List Int64) (inflate : List Int64 → Option (List Int64))
  (random : Nat → Nat → Int64) (maskOutgoing masked : Bool)

theorem sendCloseGeneric_eq (conn : TinoxConn) (count : Nat) (code : Int64) :
    (sendCloseGeneric deflateRaw random maskOutgoing conn count code).outgoing =
      conn.outgoing ++ wireFrame true 8 maskOutgoing (maskBytes random count)
        [(code >>> 8) &&& 0xff, code &&& 0xff] := by
  have notData : decide ((8 : Int64) = 1 ∨ (8 : Int64) = 2) = false := by decide
  have noBit : (0x80 ||| 0 ||| (8 &&& 0x0f) : Int64) = 0x80 ||| (8 &&& 0x0f) := by decide
  rw [sendCloseGeneric, writeFrameGeneric]
  simp only [notData, Bool.false_and, Bool.false_eq_true, if_false, noBit]
  rfl

theorem finishMessage_fits (fits : Fits inflate s f) (isFinal : f.fin = true) (conn : TinoxConn)
    (count : Nat) :
    finishMessage deflateRaw (tinoxInflateRaw inflate) random maskOutgoing conn count
        (if s.assembling then s.msgOpcode else Int64.ofNat f.opcode) (s.payload ++ f.payload)
        (s.compresses f) = (completed inflate s f, conn, count) := by
  rw [finishMessage, completed]
  split
  · next compresses =>
      rcases Option.isSome_iff_exists.mp (fits.ends isFinal compresses) with ⟨out, isOut⟩
      rw [isOut]
      rfl
  · rfl

variable {deflateRaw inflate random maskOutgoing masked} {s : Assembly} {f : RawFrame}
  {conn next : TinoxConn}
  (isRead : readFrameGeneric conn masked = (f.read, next))

include isRead

theorem readMessageLoop_data (sound : Sound s) (isData : f.isControl = false) (count : Nat) :
    readMessageLoop deflateRaw (tinoxInflateRaw inflate) random maskOutgoing masked conn count s =
      if f.opcode.val = 0 ↔ s.assembling = true then
        if f.fin then
          finishMessage deflateRaw (tinoxInflateRaw inflate) random maskOutgoing next count
            (if s.assembling then s.msgOpcode else Int64.ofNat f.opcode) (s.payload ++ f.payload)
            (s.compresses f)
        else if maxMessage < (s.payload ++ f.payload).length then
          failed deflateRaw random maskOutgoing next count 1009
        else
          readMessageLoop deflateRaw (tinoxInflateRaw inflate) random maskOutgoing masked next count
            (s.after f)
      else failed deflateRaw random maskOutgoing next count 1002 := by
  rcases opcode_eq f.opcode with ⟨isNine, isTen, isEight, notEnd, notError, isZero⟩
  have notControl : ¬ (8 ≤ f.opcode.val ∧ f.opcode.val ≤ 10) := of_decide_eq_false isData
  have notPing : Int64.ofNat f.opcode ≠ 9 := fun same => notControl (by rw [isNine.mp same]; decide)
  have notPong : Int64.ofNat f.opcode ≠ 10 := fun same => notControl (by rw [isTen.mp same]; decide)
  have notClose : Int64.ofNat f.opcode ≠ 8 := fun same => notControl (by rw [isEight.mp same]; decide)
  rw [RawFrame.read] at isRead
  rw [readMessageLoop, isRead]
  simp only [dif_neg notPing, dif_neg notPong, if_neg notClose, dif_neg notEnd, if_neg notError]
  cases isAssembling : s.assembling with
  | false =>
      rw [if_pos rfl, sound.empty isAssembling, Assembly.after, isData, Assembly.compresses,
        isAssembling]
      by_cases zero : f.opcode.val = 0
      · have unexpected : ¬ (f.opcode.val = 0 ↔ false = true) := by simp [zero]
        rw [if_pos (isZero.mpr zero), if_neg unexpected]
      · have expected : f.opcode.val = 0 ↔ false = true := by simp [zero]
        rw [if_neg (fun same => zero (isZero.mp same)), if_pos expected]
        cases f.fin <;> rfl
  | true =>
      rw [if_neg (by decide), Assembly.after, isData, Assembly.compresses, isAssembling]
      by_cases zero : f.opcode.val = 0
      · have expected : f.opcode.val = 0 ↔ true = true := by simp [zero]
        rw [if_neg (not_not.mpr (isZero.mpr zero)), if_pos expected]
        cases f.fin <;> rfl
      · have unexpected : ¬ (f.opcode.val = 0 ↔ true = true) := by simp [zero]
        rw [if_pos (fun same => zero (isZero.mp same)), if_neg unexpected]

theorem readMessageLoop_control (isControl : f.isControl = true) (notClose : f.opcode.val ≠ 8)
    (count : Nat) : ∃ sent count',
      readMessageLoop deflateRaw (tinoxInflateRaw inflate) random maskOutgoing masked conn count s =
        readMessageLoop deflateRaw (tinoxInflateRaw inflate) random maskOutgoing masked
          { next with outgoing := next.outgoing ++ sent } count' s := by
  rcases opcode_eq f.opcode with ⟨isNine, isTen, -⟩
  have isCode : 8 ≤ f.opcode.val ∧ f.opcode.val ≤ 10 := of_decide_eq_true isControl
  rw [RawFrame.read] at isRead
  by_cases nine : f.opcode.val = 9
  · refine ⟨wireFrame true 10 maskOutgoing (maskBytes random count) f.payload, count + 1, ?_⟩
    rw [readMessageLoop, isRead]
    simp only [dif_pos (isNine.mpr nine)]
    rw [writeFrameGeneric_pong]
  · have notPing : Int64.ofNat f.opcode ≠ 9 := fun same => nine (isNine.mp same)
    have isPong : Int64.ofNat f.opcode = 10 := isTen.mpr (by omega)
    refine ⟨[], count, ?_⟩
    rw [readMessageLoop, isRead]
    simp only [dif_neg notPing, dif_pos isPong, List.append_nil]

omit isRead

theorem readMessageLoop_accepted (sound : Sound s)
    (accepted : Accepted inflate masked conn.wsCompressed s f) (count : Nat) {rest : List UInt8}
    (isStream : conn.incoming.flatten = f.wire ++ rest) :
    ∃ later sent count', later.flatten = rest ∧
      readMessageLoop deflateRaw (tinoxInflateRaw inflate) random maskOutgoing masked conn count s =
        if f.isControl = false ∧ f.fin = true then
          (completed inflate s f, ⟨later, conn.outgoing ++ sent, conn.wsCompressed⟩, count')
        else
          readMessageLoop deflateRaw (tinoxInflateRaw inflate) random maskOutgoing masked
            ⟨later, conn.outgoing ++ sent, conn.wsCompressed⟩ count' (s.after f) := by
  cases isControl : f.isControl with
  | true =>
      have few := (accepted.header.control isControl).2
      rcases readFrameGeneric_accepted isStream accepted.header
        (Nat.le_trans few (by decide : 125 ≤ maxMessage)) with ⟨later, isRead, isRest⟩
      rcases @readMessageLoop_control deflateRaw inflate random maskOutgoing _ s _ _ _ isRead
        isControl accepted.notClose count with ⟨sent, count', isSame⟩
      refine ⟨later, sent, count', isRest, ?_⟩
      rw [isSame, if_neg (by simp), Assembly.after, isControl]
      rfl
  | false =>
      have fits := accepted.fits isControl
      rcases readFrameGeneric_accepted isStream accepted.header fits.frame with
        ⟨later, isRead, isRest⟩
      refine ⟨later, [], count, isRest, ?_⟩
      rw [readMessageLoop_data isRead sound isControl, if_pos (accepted.expected isControl),
        List.append_nil]
      have isEnd := finishMessage_fits deflateRaw inflate random maskOutgoing fits
      cases isFinal : f.fin with
      | true => simp only [isEnd isFinal, and_self, if_true]
      | false =>
          simp only [Nat.not_lt.mpr (fits.goesOn isFinal), Bool.false_eq_true, and_false, if_false]

theorem failed_errs (conn : TinoxConn) (count : Nat) (code : Int64) :
    Errs maskOutgoing conn (failed deflateRaw random maskOutgoing conn count code) :=
  ⟨_, _, rfl, sendCloseGeneric_eq deflateRaw random maskOutgoing conn count code⟩

/-- A header that is rejected, or a frame that is too long, ends the connection. -/
theorem readMessageLoop_rejected (count : Nat) (isStream : conn.incoming.flatten = f.wire ++ rest)
    (fault : ¬ HeaderAccepted masked conn.wsCompressed f ∨ maxMessage < f.payload.length) :
    Errs maskOutgoing conn
      (readMessageLoop deflateRaw (tinoxInflateRaw inflate) random maskOutgoing masked conn count s) := by
  rcases readFrameGeneric_rejected isStream fault with ⟨later, isRead⟩
  rw [readMessageLoop, isRead]
  exact ⟨_, _, rfl, sendCloseGeneric_eq deflateRaw random maskOutgoing { conn with incoming := later }
    count 1002⟩

/-- A frame that is not accepted ends the connection, unless it is a close frame. -/
theorem readMessageLoop_refused (sound : Sound s)
    (refused : ¬ Accepted inflate masked conn.wsCompressed s f)
    (notClose : f.opcode.val = 8 → ¬ HeaderAccepted masked conn.wsCompressed f) (count : Nat)
    {rest : List UInt8} (isStream : conn.incoming.flatten = f.wire ++ rest) :
    Errs maskOutgoing conn
      (readMessageLoop deflateRaw (tinoxInflateRaw inflate) random maskOutgoing masked conn count s) := by
  by_cases fault : ¬ HeaderAccepted masked conn.wsCompressed f ∨ maxMessage < f.payload.length
  · exact readMessageLoop_rejected count isStream fault
  · rcases not_or.mp fault with ⟨header, short⟩
    have header := not_not.mp header
    have notEight : f.opcode.val ≠ 8 := fun eight => notClose eight header
    have short := Nat.le_of_not_lt short
    cases isControl : f.isControl with
    | true =>
        have accepted : Accepted inflate masked conn.wsCompressed s f :=
          ⟨header, notEight, by simp [isControl], by simp [isControl]⟩
        exact absurd accepted refused
    | false =>
        rcases readFrameGeneric_accepted isStream header short with ⟨later, isRead, -⟩
        have isFailed (code : Int64) : Errs maskOutgoing conn (failed deflateRaw random maskOutgoing
            { conn with incoming := later } count code) := failed_errs _ count code
        rw [readMessageLoop_data isRead sound isControl]
        by_cases expected : f.opcode.val = 0 ↔ s.assembling = true
        · rw [if_pos expected]
          have notFits : ¬ Fits inflate s f := fun fits =>
            refused ⟨header, notEight, fun _ => expected, fun _ => fits⟩
          cases isFinal : f.fin with
          | false =>
              rw [if_neg (by decide)]
              by_cases long : maxMessage < (s.payload ++ f.payload).length
              · rw [if_pos long]
                exact isFailed 1009
              · refine absurd ⟨short, fun _ => Nat.le_of_not_lt long, fun final => ?_⟩ notFits
                rw [isFinal] at final
                cases final
          | true =>
              rw [if_pos rfl, finishMessage]
              have notInflated : ¬ (s.compresses f = true →
                  (tinoxInflateRaw inflate (s.payload ++ f.payload)).isSome) := by
                refine fun inflated => notFits ⟨short, fun notFinal => ?_, fun _ => inflated⟩
                rw [isFinal] at notFinal
                cases notFinal
              rcases not_forall.mp notInflated with ⟨compresses, isNone⟩
              rw [if_pos compresses, Option.not_isSome_iff_eq_none.mp isNone]
              exact isFailed 1002
        · rw [if_neg expected]
          exact isFailed 1002

/-! ## Runs -/

theorem readFrom_fresh (n count : Nat) :
    readFrom deflateRaw inflate random maskOutgoing masked Assembly.fresh n conn count =
      readMessages deflateRaw (tinoxInflateRaw inflate) random maskOutgoing masked (n + 1) conn count :=
  rfl

theorem readFrom_delivered {frames : List RawFrame} (sound : Sound s)
    (accepted : Each (Accepted inflate masked conn.wsCompressed) s frames) (count : Nat)
    {rest : List UInt8} (isStream : conn.incoming.flatten = frames.flatMap RawFrame.wire ++ rest) :
    ∃ later sent count', later.flatten = rest ∧ ∀ n,
      readFrom deflateRaw inflate random maskOutgoing masked s
          ((delivered inflate s frames).length + n) conn count =
        (delivered inflate s frames ++
            (readFrom deflateRaw inflate random maskOutgoing masked (s.afterAll frames) n
              ⟨later, conn.outgoing ++ sent, conn.wsCompressed⟩ count').1,
          (readFrom deflateRaw inflate random maskOutgoing masked (s.afterAll frames) n
              ⟨later, conn.outgoing ++ sent, conn.wsCompressed⟩ count').2) := by
  induction frames generalizing s conn count with
  | nil =>
      refine ⟨conn.incoming, [], count, isStream, fun n => ?_⟩
      rw [delivered, List.length_nil, Nat.zero_add, List.nil_append, List.append_nil]
      rfl
  | cons f frames ih =>
      rw [List.flatMap_cons, List.append_assoc] at isStream
      rcases @readMessageLoop_accepted deflateRaw inflate random maskOutgoing masked s f conn sound
        accepted.1 count _ isStream with ⟨middle, sent, count', isMiddle, isLoop⟩
      rcases @ih (s.after f) ⟨middle, conn.outgoing ++ sent, conn.wsCompressed⟩ (sound.after f)
        accepted.2 count' isMiddle with ⟨later, sent', count'', isRest, isRun⟩
      refine ⟨later, sent ++ sent', count'', isRest, fun n => ?_⟩
      have isRun := isRun n
      dsimp only at isRun
      rw [List.append_assoc] at isRun
      rw [delivered, Assembly.afterAll, List.foldl_cons]
      change _ = (_ ++ (readFrom deflateRaw inflate random maskOutgoing masked
        ((s.after f).afterAll frames) n _ _).1, _)
      by_cases completes : f.isControl = false ∧ f.fin = true
      · have isFresh : s.after f = Assembly.fresh := by
          rw [Assembly.after, completes.1, completes.2]
          rfl
        have isCount : ([completed inflate s f] ++ delivered inflate (s.after f) frames).length + n =
            (delivered inflate (s.after f) frames).length + n + 1 := by
          rw [List.length_append, List.length_singleton]
          omega
        rw [if_pos completes] at isLoop ⊢
        rw [isCount, readFrom, isLoop]
        dsimp only
        rw [← readFrom_fresh, ← isFresh, isRun]
        rfl
      · rw [if_neg completes] at isLoop ⊢
        rw [List.nil_append, readFrom, isLoop]
        exact isRun

theorem readMessageLoop_end (count : Nat) (isEnd : conn.incoming.flatten = []) :
    (readMessageLoop deflateRaw (tinoxInflateRaw inflate) random maskOutgoing masked conn count s).1 =
      ⟨true, -1, [], false⟩ := by
  have isHeader := length_httpConnReadN conn 2
  rw [isEnd, List.length_nil] at isHeader
  have isBad : (readFrameGeneric conn masked).1 = ⟨true, -1, [], false⟩ := by
    rw [readFrameGeneric]
    dsimp only
    rw [if_pos (by omega)]
  rw [readMessageLoop]
  simp only [isBad]
  rfl

/-- A data frame that is accepted ends no call with an error when the stream ends behind it. -/
theorem readMessageLoop_noError (sound : Sound s)
    (accepted : Accepted inflate masked conn.wsCompressed s f) (count : Nat)
    (isStream : conn.incoming.flatten = f.wire ++ []) :
    (readMessageLoop deflateRaw (tinoxInflateRaw inflate) random maskOutgoing masked conn count
      s).1.opcode ≠ -2 := by
  rcases @readMessageLoop_accepted deflateRaw inflate random maskOutgoing masked s f conn sound
    accepted count _ isStream with ⟨later, sent, count', isRest, isLoop⟩
  rw [isLoop]
  split
  · change (if s.assembling then s.msgOpcode else Int64.ofNat f.opcode) ≠ -2
    split
    · next assembling =>
        rcases sound.opcode assembling with ⟨code, isCode⟩
        rw [isCode]
        exact (opcode_eq code).2.2.2.2.1
    · exact (opcode_eq f.opcode).2.2.2.2.1
  · rw [@readMessageLoop_end _ _ _ _ _ _ ⟨later, _, _⟩ count' isRest]
    exact (by decide : (-1 : Int64) ≠ -2)

end Reading

theorem accepted_iff_overlooked {inflate : List Int64 → Option (List Int64)} {compressed : Bool}
    (forbidden : ¬ Permitted masked compressed s f) :
    Accepted inflate masked compressed s f ↔ Overlooked inflate masked compressed s f := by
  constructor
  · intro accepted
    have notEight := accepted.notClose
    cases isControl : f.isControl with
    | true =>
        have isCode : 8 ≤ f.opcode.val ∧ f.opcode.val ≤ 10 := of_decide_eq_true isControl
        refine absurd ⟨accepted.header.masking, accepted.header.reserved, fun isDeflated => ?_,
          Or.inr isCode, fun _ => accepted.header.control isControl, by omega, by omega⟩ forbidden
        have notControl := (accepted.header.deflated isDeflated).2
        rw [isControl] at notControl
        cases notControl
    | false =>
        have notCode : ¬ (8 ≤ f.opcode.val ∧ f.opcode.val ≤ 10) := of_decide_eq_false isControl
        have expected := accepted.expected isControl
        refine ⟨accepted.header.masking, accepted.header.reserved,
          fun isDeflated => (accepted.header.deflated isDeflated).1, ?_, accepted.fits isControl⟩
        cases isAssembling : s.assembling with
        | false =>
            rw [isAssembling] at expected
            have notZero : f.opcode.val ≠ 0 := fun zero => Bool.noConfusion (expected.mp zero)
            refine Or.inl ⟨rfl, ?_⟩
            by_contra known
            have isData : f.opcode.val = 1 ∨ f.opcode.val = 2 := by omega
            exact forbidden ⟨accepted.header.masking, accepted.header.reserved,
              fun isDeflated => ⟨(accepted.header.deflated isDeflated).1, isData⟩, by omega, by omega,
              fun zero => absurd zero notZero, fun _ => isAssembling⟩
        | true =>
            have zero : f.opcode.val = 0 := expected.mpr isAssembling
            refine Or.inr ⟨rfl, zero, ?_⟩
            by_contra notDeflated
            exact forbidden ⟨accepted.header.masking, accepted.header.reserved,
              fun isDeflated => absurd isDeflated notDeflated, by omega, by omega,
              fun _ => isAssembling, by omega⟩
  · intro overlooked
    have notCode : ¬ (8 ≤ f.opcode.val ∧ f.opcode.val ≤ 10) := by
      rcases overlooked.kind with ⟨-, small | large⟩ | ⟨-, zero, -⟩ <;> omega
    have notControl : f.isControl = false := decide_eq_false notCode
    refine ⟨⟨overlooked.masking, overlooked.reserved,
      fun isDeflated => ⟨overlooked.deflated isDeflated, notControl⟩, fun isControl => ?_⟩, by omega,
      fun _ => ?_, fun _ => overlooked.fits⟩
    · rw [notControl] at isControl
      cases isControl
    · rcases overlooked.kind with ⟨isAssembling, some⟩ | ⟨isAssembling, zero, -⟩
      · rw [isAssembling]
        exact iff_of_false (by omega) (by decide)
      · exact iff_of_true zero isAssembling

/-- A message that is completed is within the cap exactly if its last fragment does not take it
over. -/
theorem completed_within_iff {inflate : List Int64 → Option (List Int64)}
    (completes : f.isControl = false ∧ f.fin = true) :
    (completed inflate s f).payload.length ≤ maxMessage ↔ EndsWithin s f := by
  rw [completed]
  cases compresses : s.compresses f with
  | false =>
      exact ⟨fun within _ _ _ => within, fun within => within completes.1 completes.2 compresses⟩
  | true =>
      refine iff_of_true ?_ fun _ _ plain => by rw [compresses] at plain; cases plain
      change ((tinoxInflateRaw inflate (s.payload ++ f.payload)).getD []).length ≤ maxMessage
      rw [tinoxInflateRaw]
      split
      · exact Nat.zero_le _
      · split
        · exact Nat.zero_le _
        · next short => exact Nat.le_of_not_lt short

theorem delivered_within_iff {inflate : List Int64 → Option (List Int64)} {s : Assembly}
    {frames : List RawFrame} :
    (∀ message ∈ delivered inflate s frames, message.payload.length ≤ maxMessage) ↔
      Each EndsWithin s frames := by
  induction frames generalizing s with
  | nil => exact iff_of_true nofun trivial
  | cons f frames ih =>
      rw [delivered, List.forall_mem_append, Each, ih]
      apply and_congr_left
      intro _
      split
      · next completes =>
          rw [List.forall_mem_singleton]
          exact completed_within_iff completes
      · next goesOn => exact iff_of_true nofun fun isData isFinal => absurd ⟨isData, isFinal⟩ goesOn

/-! ## The errors that are detected -/

section Detecting

variable (deflateRaw : List Int64 → List Int64) (inflate : List Int64 → Option (List Int64))
  (random : Nat → Nat → Int64) (maskOutgoing masked compressed : Bool)

theorem readMessages_take (n : Nat) (conn : TinoxConn) (count : Nat) :
    (readMessages deflateRaw (tinoxInflateRaw inflate) random maskOutgoing masked (n + 1) conn
        count).1.take n =
      (readMessages deflateRaw (tinoxInflateRaw inflate) random maskOutgoing masked n conn count).1 := by
  induction n generalizing conn count with
  | zero => rfl
  | succ n ih =>
      rw [readMessages]
      dsimp only
      rw [List.take_succ_cons, ih]
      rfl

variable {deflateRaw inflate random maskOutgoing masked compressed} {before : List RawFrame}
  (accepted : Each (Accepted inflate masked compressed) Assembly.fresh before)

include accepted

/-- The calls that the accepted frames complete, and the one that meets the next frame. -/
theorem readMessages_next {conn : TinoxConn} (count : Nat) {rest : List UInt8}
    (isCompressed : conn.wsCompressed = compressed)
    (isStream : conn.incoming.flatten = before.flatMap RawFrame.wire ++ rest) :
    ∃ next sent count', next.incoming.flatten = rest ∧ next.wsCompressed = compressed ∧
      next.outgoing = conn.outgoing ++ sent ∧
      readMessages deflateRaw (tinoxInflateRaw inflate) random maskOutgoing masked
          ((delivered inflate Assembly.fresh before).length + 1) conn count =
        (delivered inflate Assembly.fresh before ++
            [(readMessageLoop deflateRaw (tinoxInflateRaw inflate) random maskOutgoing masked next
              count' (Assembly.fresh.afterAll before)).1],
          (readMessageLoop deflateRaw (tinoxInflateRaw inflate) random maskOutgoing masked next
            count' (Assembly.fresh.afterAll before)).2) := by
  subst isCompressed
  rcases @readFrom_delivered deflateRaw inflate random maskOutgoing masked _ conn before sound_fresh
    accepted count _ isStream with ⟨later, sent, count', isRest, isRun⟩
  refine ⟨⟨later, conn.outgoing ++ sent, conn.wsCompressed⟩, sent, count', isRest, rfl, rfl, ?_⟩
  have isRun := isRun 0
  rw [Nat.add_zero, readFrom_fresh] at isRun
  exact isRun

theorem detected_of_refused
    (refused : ¬ Accepted inflate masked compressed (Assembly.fresh.afterAll before) f)
    (notClose : f.opcode.val = 8 → ¬ HeaderAccepted masked compressed f) :
    Detected deflateRaw inflate random maskOutgoing masked compressed before f := by
  intro conn count rest isCompressed isStream
  rcases @readMessages_next deflateRaw inflate random maskOutgoing masked compressed before accepted
    conn count _ isCompressed isStream with
    ⟨next, sent, count', isRest, isCompressed', isOutgoing, isRun⟩
  subst isCompressed'
  rcases @readMessageLoop_refused deflateRaw inflate random maskOutgoing masked _ f next
    (sound_fresh.afterAll before) refused notClose count' rest isRest with
    ⟨mask, code, isError, isClosed⟩
  generalize readMessageLoop deflateRaw (tinoxInflateRaw inflate) random maskOutgoing masked next
    count' (Assembly.fresh.afterAll before) = result at isRun isError isClosed
  rw [isError] at isRun
  rw [isOutgoing] at isClosed
  exact ⟨sent, code, mask, result.2.1, result.2.2, isRun, isClosed⟩

theorem not_detected_of_overlooked {f : RawFrame}
    (overlooked : Accepted inflate masked compressed (Assembly.fresh.afterAll before) f) :
    ¬ Detected deflateRaw inflate random maskOutgoing masked compressed before f := by
  intro detected
  have isStream : [before.flatMap RawFrame.wire ++ f.wire].flatten =
      before.flatMap RawFrame.wire ++ (f.wire ++ []) := by
    rw [List.flatten_singleton, List.append_nil]
  rcases @readMessages_next deflateRaw inflate random maskOutgoing masked compressed before accepted
    ⟨_, [], compressed⟩ 0 _ rfl isStream with
    ⟨next, sent, count', isRest, isCompressed', isOutgoing, isRun⟩
  rcases detected ⟨_, [], compressed⟩ 0 [] rfl isStream with ⟨sent', code, mask, last, count'', isRun', -⟩
  rw [isRun'] at isRun
  have isError := List.append_cancel_left (congrArg Prod.fst isRun)
  subst isCompressed'
  apply @readMessageLoop_noError deflateRaw inflate random maskOutgoing masked _ f next
    (sound_fresh.afterAll before) overlooked count' isRest
  rw [← List.singleton_inj.mp isError]

/-- At the first frame that is not accepted a call ends with an error: every forbidden frame is
detected but for reserved opcodes that start a message and RSV1 on continuations. The messages
before it are within the cap exactly if no last fragment takes its message over. -/
theorem protocolErrors_iff :
    (∀ f, ¬ Permitted masked compressed (Assembly.fresh.afterAll before) f →
      (Detected deflateRaw inflate random maskOutgoing masked compressed before f ↔
        ¬ Overlooked inflate masked compressed (Assembly.fresh.afterAll before) f)) ∧
    (∀ f, f.opcode.val ≠ 8 →
      ¬ Accepted inflate masked compressed (Assembly.fresh.afterAll before) f →
        Detected deflateRaw inflate random maskOutgoing masked compressed before f) ∧
    ∀ conn count rest, conn.wsCompressed = compressed →
      conn.incoming.flatten = before.flatMap RawFrame.wire ++ rest →
        ((∀ message ∈ (readMessages deflateRaw (tinoxInflateRaw inflate) random maskOutgoing masked
            (delivered inflate Assembly.fresh before).length conn count).1,
              message.payload.length ≤ maxMessage) ↔ Each EndsWithin Assembly.fresh before) := by
  refine ⟨fun f forbidden => ?_, fun f notEight refused => ?_, fun conn count rest same isStream => ?_⟩
  · rw [← accepted_iff_overlooked forbidden]
    constructor
    · exact fun detected overlooked => not_detected_of_overlooked accepted overlooked detected
    · intro refused
      apply detected_of_refused accepted refused
      intro eight header
      -- an accepted close frame is a permitted one
      have isControl : f.isControl = true := decide_eq_true (by omega)
      refine forbidden ⟨header.masking, header.reserved, fun isDeflated => ?_, by omega,
        fun _ => header.control isControl, by omega, by omega⟩
      have notControl := (header.deflated isDeflated).2
      rw [isControl] at notControl
      cases notControl
  · exact detected_of_refused accepted refused fun eight => absurd eight notEight
  · rcases @readMessages_next deflateRaw inflate random maskOutgoing masked compressed before accepted
      conn count _ same isStream with ⟨next, sent, count', -, -, -, isRun⟩
    rw [← @delivered_within_iff inflate, ← readMessages_take, isRun]
    dsimp only
    rw [List.take_left']
    rfl

end Detecting

/-- A masked frame without reserved bits but RSV1. -/
def maskedFrame (fin rsv1 : Bool) (opcode : Fin 16) (fragment : Fragment)
    (small : fragment.payload.length < 2 ^ 63) : RawFrame :=
  { fragment with fin, rsv1, rsv2 := false, rsv3 := false, opcode, masked := true, small }

/-- A letter. -/
def letter : Fragment :=
  plain [65] (isByte_singleton (by decide)) []

theorem maskedFrame_header {fin : Bool} {opcode : Fin 16} {fragment : Fragment}
    {small : fragment.payload.length < 2 ^ 63}
    (isControl : (maskedFrame fin false opcode fragment small).isControl = true →
      fin = true ∧ fragment.payload.length ≤ 125) (compressed : Bool) :
    HeaderAccepted true compressed (maskedFrame fin false opcode fragment small) :=
  ⟨rfl, ⟨rfl, rfl⟩, nofun, isControl⟩

/-- The opcodes below are numerals of this instance. -/
local instance neZero_sixteen : NeZero 16 :=
  ⟨by decide⟩

/-- The first fragment of a text, and a ping. -/
def startAndPing : List RawFrame :=
  [maskedFrame false false 1 letter (by decide), maskedFrame true false 9 letter (by decide)]

theorem startAndPing_accepted : Each (Accepted some true false) Assembly.fresh startAndPing := by
  refine ⟨⟨maskedFrame_header (by decide) false, by decide, fun _ => by decide, fun _ => ?_⟩,
    ⟨maskedFrame_header (by decide) false, by decide, by decide,
      fun isData => absurd isData (by decide)⟩, trivial⟩
  exact ⟨by decide, fun _ => by decide, nofun⟩

theorem protocolErrors_iff_startAndPing :
    (∀ f, ¬ Permitted true false (Assembly.fresh.afterAll startAndPing) f →
      (Detected id some (fun _ _ => 0) false true false startAndPing f ↔
        ¬ Overlooked some true false (Assembly.fresh.afterAll startAndPing) f)) ∧
    (∀ f, f.opcode.val ≠ 8 → ¬ Accepted some true false (Assembly.fresh.afterAll startAndPing) f →
      Detected id some (fun _ _ => 0) false true false startAndPing f) ∧
    ∀ conn count rest, conn.wsCompressed = false →
      conn.incoming.flatten = startAndPing.flatMap RawFrame.wire ++ rest →
        ((∀ message ∈ (readMessages id (tinoxInflateRaw some) (fun _ _ => 0) false true
            (delivered some Assembly.fresh startAndPing).length conn count).1,
              message.payload.length ≤ maxMessage) ↔ Each EndsWithin Assembly.fresh startAndPing) :=
  protocolErrors_iff startAndPing_accepted

/-- A frame with a reserved opcode. -/
def reservedFrame : RawFrame :=
  maskedFrame true false 3 letter (by decide)

/-- The last fragment of a compressed message, with RSV1. -/
def deflatedContinuation : RawFrame :=
  maskedFrame true true 0 letter (by decide)

/-- Two fragments with one byte more than the cap. -/
def longMessage : List RawFrame :=
  [maskedFrame false false 2 (zeros 16777216) (by rw [length_zeros]; decide),
    maskedFrame true false 0 (zeros 1) (by rw [length_zeros]; decide)]

/-- The reserved opcode is returned as a message and RSV1 on a continuation is not detected; the
long message is returned. -/
theorem reservedFrame_notDetected :
    (¬ Permitted true false Assembly.fresh reservedFrame ∧
      ¬ Detected id some (fun _ _ => 0) false true false [] reservedFrame) ∧
    (¬ Permitted true true (Assembly.fresh.after (maskedFrame false true 1 letter (by decide)))
        deflatedContinuation ∧
      ¬ Detected id some (fun _ _ => 0) false true true
        [maskedFrame false true 1 letter (by decide)] deflatedContinuation) ∧
    Each (Accepted some true false) Assembly.fresh longMessage ∧
      ¬ ∀ message ∈ delivered some Assembly.fresh longMessage, message.payload.length ≤ maxMessage := by
  refine ⟨⟨?_, ?_⟩, ⟨?_, ?_⟩, ⟨?_, ?_, trivial⟩, ?_⟩
  · intro permitted
    exact absurd permitted.known (by decide)
  · refine @not_detected_of_overlooked _ _ _ _ _ _ [] trivial _ ?_
    exact ⟨maskedFrame_header (by decide) false, by decide, fun _ => by decide,
      fun _ => ⟨by decide, nofun, nofun⟩⟩
  · intro permitted
    exact absurd (permitted.deflated rfl).2 (by decide)
  · apply not_detected_of_overlooked
    · exact ⟨⟨⟨rfl, ⟨rfl, rfl⟩, fun _ => ⟨rfl, rfl⟩, by decide⟩, by decide, fun _ => by decide,
        fun _ => ⟨by decide, fun _ => by decide, nofun⟩⟩, trivial⟩
    · exact ⟨⟨rfl, ⟨rfl, rfl⟩, fun _ => ⟨rfl, rfl⟩, by decide⟩, by decide, fun _ => by decide,
        fun _ => ⟨by decide, nofun, fun _ _ => by decide⟩⟩
  · refine ⟨maskedFrame_header (by decide) false, by decide, fun _ => by decide, fun _ => ?_⟩
    exact ⟨Nat.le_of_eq (length_zeros _), fun _ => Nat.le_of_eq (length_zeros _), nofun⟩
  · refine ⟨maskedFrame_header (by decide) false, by decide, fun _ => by decide, fun _ => ?_⟩
    refine ⟨?_, nofun, nofun⟩
    change (zeros 1).payload.length ≤ maxMessage
    rw [length_zeros]
    decide
  · rw [delivered_within_iff]
    rintro ⟨-, within, -⟩
    have long := within rfl rfl rfl
    change ((zeros 16777216).payload ++ (zeros 1).payload).length ≤ 16777216 at long
    rw [List.length_append, length_zeros, length_zeros] at long
    omega

end Tinox.Net
