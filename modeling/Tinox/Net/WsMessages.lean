import Tinox.Net.WebSocket

/-!
# WebSocket messages

`Ws.readMessageGeneric` puts the fragments of a message together and answers the pings between
them.
-/

namespace Tinox.Net

open Segments

theorem readLength_le (conn : TinoxConn) (plen : Int64) :
    (readLength conn plen).2.incoming.flatten.length ≤ conn.incoming.flatten.length := by
  have two := length_httpConnReadN conn 2
  have eight := length_httpConnReadN conn 8
  rw [readLength]
  split
  · dsimp only
    split <;> dsimp only <;> omega
  · split
    · dsimp only
      split <;> dsimp only <;> omega
    · exact Nat.le_refl _

theorem readMask_le (conn : TinoxConn) (masked : Bool) :
    (readMask conn masked).2.incoming.flatten.length ≤ conn.incoming.flatten.length := by
  have four := length_httpConnReadN conn 4
  rw [readMask]
  split
  · dsimp only
    split <;> dsimp only <;> omega
  · exact Nat.le_refl _

theorem readPayload_le (conn : TinoxConn) (plen : Int64) (masked : Bool) (mask : List Int64) :
    (readPayload conn plen masked mask).2.incoming.flatten.length ≤ conn.incoming.flatten.length := by
  have all := length_httpConnReadN conn plen
  rw [readPayload]
  split
  · dsimp only
    split <;> dsimp only <;> omega
  · exact Nat.le_refl _

theorem readFrameGeneric_shorter {conn : TinoxConn} {requireMasked : Bool}
    (isFrame : (readFrameGeneric conn requireMasked).1.opcode ≠ -1) :
    (readFrameGeneric conn requireMasked).2.incoming.flatten.length < conn.incoming.flatten.length := by
  have header := length_httpConnReadN conn 2
  rw [readFrameGeneric] at isFrame ⊢
  dsimp only at isFrame ⊢
  generalize httpConnReadN conn 2 = hdr at header isFrame ⊢
  split at isFrame
  · exact absurd rfl isFrame
  next notShort =>
    rw [if_neg notShort]
    have shorter : hdr.2.incoming.flatten.length < conn.incoming.flatten.length := by omega
    clear isFrame header
    split
    · exact shorter
    · split
      · exact shorter
      · have lengthLe := readLength_le hdr.2 (hdr.1.getD 1 0 &&& 127)
        split
        next isLength =>
          rw [isLength] at lengthLe
          exact Nat.lt_of_le_of_lt lengthLe shorter
        next plen afterLength isLength =>
          rw [isLength] at lengthLe
          have shorter := Nat.lt_of_le_of_lt lengthLe shorter
          split
          · exact shorter
          · have maskLe := readMask_le afterLength (hdr.1.getD 1 0 &&& 128 != 0)
            split
            next isMask =>
              rw [isMask] at maskLe
              exact Nat.lt_of_le_of_lt maskLe shorter
            next mask afterMask isMask =>
              rw [isMask] at maskLe
              have shorter := Nat.lt_of_le_of_lt maskLe shorter
              have payloadLe := readPayload_le afterMask plen (hdr.1.getD 1 0 &&& 128 != 0) mask
              split
              next isPayload =>
                rw [isPayload] at payloadLe
                exact Nat.lt_of_le_of_lt payloadLe shorter
              next isPayload =>
                rw [isPayload] at payloadLe
                exact Nat.lt_of_le_of_lt payloadLe shorter

/-- What `Ws.readMessageGeneric` keeps between frames. -/
structure Assembly where
  assembling : Bool
  msgOpcode : Int64
  msgCompressed : Bool
  payload : List Int64

section Reading

/- `tinoxDeflateRaw`, `tinoxInflateRaw` (`none` when it fails), and the values of the calls of
`randomInt(0, 256)` for each frame that is written. -/
variable (deflateRaw : List Int64 → List Int64) (inflateRaw : List Int64 → Option (List Int64))
  (random : Nat → Nat → Int64) (maskOutgoing : Bool)

/-- `Ws.sendCloseGeneric`, for the frame with the number `count`. -/
def sendCloseGeneric (conn : TinoxConn) (count : Nat) (code : Int64) : TinoxConn :=
  writeFrameGeneric deflateRaw (random count) conn 8 [(code >>> 8) &&& 0xff, code &&& 0xff] maskOutgoing

/-- A protocol error: the connection is closed with a code. -/
def failed (conn : TinoxConn) (count : Nat) (code : Int64) : WsFrame × TinoxConn × Nat :=
  (⟨true, -2, [], false⟩, sendCloseGeneric deflateRaw random maskOutgoing conn count code, count + 1)

/-- `Ws.finishMessage`. -/
def finishMessage (conn : TinoxConn) (count : Nat) (opcode : Int64) (payload : List Int64)
    (compressed : Bool) : WsFrame × TinoxConn × Nat :=
  if compressed then
    match inflateRaw payload with
    | none => failed deflateRaw random maskOutgoing conn count 1002
    | some decompressed => (⟨true, opcode, decompressed, false⟩, conn, count)
  else (⟨true, opcode, payload, false⟩, conn, count)

/-- The loop of `Ws.readMessageGeneric`: the frame that it returns, the connection, and the number
of frames that have been written. -/
def readMessageLoop (requireMasked : Bool) (conn : TinoxConn) (count : Nat) (s : Assembly) :
    WsFrame × TinoxConn × Nat :=
  let read := readFrameGeneric conn requireMasked
  let f := read.1
  if isPing : f.opcode = 9 then
    readMessageLoop requireMasked
      (writeFrameGeneric deflateRaw (random count) read.2 10 f.payload maskOutgoing) (count + 1) s
  else if isPong : f.opcode = 10 then readMessageLoop requireMasked read.2 count s
  else if f.opcode = 8 then
    (f, writeFrameGeneric deflateRaw (random count) read.2 8 f.payload maskOutgoing, count + 1)
  else if isEnd : f.opcode = -1 then (f, read.2, count)
  else if f.opcode = -2 then
    (f, sendCloseGeneric deflateRaw random maskOutgoing read.2 count 1002, count + 1)
  else if s.assembling = false then
    if f.opcode = 0 then failed deflateRaw random maskOutgoing read.2 count 1002
    else if f.fin then
      finishMessage deflateRaw inflateRaw random maskOutgoing read.2 count f.opcode f.payload f.rsv1
    else if 16777216 < f.payload.length then failed deflateRaw random maskOutgoing read.2 count 1009
    else readMessageLoop requireMasked read.2 count ⟨true, f.opcode, f.rsv1, f.payload⟩
  else if f.opcode ≠ 0 then failed deflateRaw random maskOutgoing read.2 count 1002
  else if f.fin then
    finishMessage deflateRaw inflateRaw random maskOutgoing read.2 count s.msgOpcode
      (s.payload ++ f.payload) s.msgCompressed
  else if 16777216 < (s.payload ++ f.payload).length then
    failed deflateRaw random maskOutgoing read.2 count 1009
  else readMessageLoop requireMasked read.2 count { s with payload := s.payload ++ f.payload }
termination_by conn.incoming.flatten.length
decreasing_by
  · exact readFrameGeneric_shorter (by rw [isPing]; decide)
  · exact readFrameGeneric_shorter (by rw [isPong]; decide)
  all_goals exact readFrameGeneric_shorter isEnd

/-- `Ws.readMessageGeneric`. -/
def readMessageGeneric (requireMasked : Bool) (conn : TinoxConn) (count : Nat) :
    WsFrame × TinoxConn × Nat :=
  readMessageLoop deflateRaw inflateRaw random maskOutgoing requireMasked conn count ⟨false, -1, false, []⟩

/-- A number of calls of `Ws.readMessageGeneric`, one after the other. -/
def readMessages (requireMasked : Bool) : Nat → TinoxConn → Nat → List WsFrame × TinoxConn × Nat
  | 0, conn, count => ([], conn, count)
  | n + 1, conn, count =>
      let message := readMessageGeneric deflateRaw inflateRaw random maskOutgoing requireMasked conn count
      let rest := readMessages requireMasked n message.2.1 message.2.2
      (message.1 :: rest.1, rest.2)

end Reading

/-- The bytes of a frame that is not compressed. -/
def wireFrame (fin : Bool) (opcode : Int64) (masked : Bool) (mask payload : List Int64) :
    List UInt8 :=
  (((if fin then 0x80 else 0) ||| (opcode &&& 0x0f)) ::
    lengthBytes (if masked then 0x80 else 0) (Int64.ofNat payload.length) ++
    bodyBytes masked mask payload).map lowByte

theorem frame_byte : ∀ (fin : Bool) (opcode : Fin 16),
    let b0 := byteValue (lowByte ((if fin then 0x80 else 0) ||| (Int64.ofNat opcode &&& 0x0f)))
    (b0 &&& 0x80 != 0) = fin ∧ (b0 &&& 0x40 != 0) = false ∧ (b0 &&& 0x30 != 0) = false ∧
      b0 &&& 0x0f = Int64.ofNat opcode := by
  decide

/-- The mask of a frame and its payload. -/
structure Body where
  mask : List Int64
  payload : List Int64
  four : mask.length = 4
  isBytes : ∀ b ∈ payload, bits b < 256

theorem readFrameGeneric_wireFrame (fin : Bool) (opcode : Fin 16) (masked : Bool) (body : Body)
    (short : body.payload.length ≤ 16777216)
    (isControl : 8 ≤ opcode.val ∧ opcode.val ≤ 10 → fin = true ∧ body.payload.length ≤ 125)
    (conn : TinoxConn) {rest : List UInt8}
    (isStream : conn.incoming.flatten =
      wireFrame fin (Int64.ofNat opcode) masked body.mask body.payload ++ rest) :
    ∃ later, readFrameGeneric conn masked =
        (⟨fin, Int64.ofNat opcode, body.payload, false⟩, { conn with incoming := later }) ∧
      later.flatten = rest := by
  rcases frame_byte fin opcode with ⟨isFin, noRsv1, noRsvOther, isSame⟩
  rcases @length_spec body.payload.length (by omega) masked with
    ⟨second, ext, isText, isMasked, isShort, -, isLength⟩
  rw [wireFrame, List.map_append, List.map_cons, isText] at isStream
  have isHeader : conn.incoming.flatten =
      [lowByte ((if fin then 0x80 else 0) ||| (Int64.ofNat opcode &&& 0x0f)), second] ++
        (ext ++ ((bodyBytes masked body.mask body.payload).map lowByte ++ rest)) := by
    rw [isStream, List.append_assoc]
    rfl
  rcases @httpConnReadN_spec conn 2 _ _ rfl (by decide) isHeader with ⟨afterHeader, isRead, isExt⟩
  rcases isLength { conn with incoming := afterHeader } _ isExt with ⟨afterLength, isPlen, isBody⟩
  rcases @body_spec _ body.isBytes short masked _ body.four
    { conn with incoming := afterLength } _ isBody with
    ⟨mask, afterMask, later, isMask, isPayload, isRest⟩
  refine ⟨later, ?_, isRest⟩
  have isAccepted := header_accepted isRead isFin noRsv1 noRsvOther isMasked ?_ isPlen ?_ isMask
    isPayload
  · rw [isSame] at isAccepted
    exact isAccepted
  · intro control
    rw [isSame] at control
    have small := opcode.isLt
    rcases isControl ⟨(ofNat_le (by decide) (by omega)).mp control.1,
      (ofNat_le (by omega) (by decide)).mp control.2⟩ with ⟨isFinal, few⟩
    refine ⟨isFinal, ?_⟩
    rw [isShort few]
    exact (ofNat_le (by omega) (by decide)).mpr few
  · rintro (negative | large)
    · exact absurd ((ofNat_lt (by omega) (by decide)).mp negative) (Nat.not_lt_zero _)
    · exact Nat.not_lt.mpr short ((ofNat_lt (by decide) (by omega)).mp large)

/-- A ping or a pong. -/
structure Control extends Body where
  isPing : Bool
  few : payload.length ≤ 125

/-- A fragment of a message and the pings and pongs in front of it. -/
structure Fragment extends Body where
  controls : List Control

/-- A data message: the fragments before its last, and the last. -/
structure Message where
  opcode : Fin 16
  isData : 1 ≤ opcode.val ∧ opcode.val ≤ 7
  starts : List Fragment
  last : Fragment

/-- The bytes of the fragments before the last. -/
def Message.started (m : Message) : List Int64 :=
  m.starts.flatMap fun fragment => fragment.payload

def Message.payload (m : Message) : List Int64 :=
  m.started ++ m.last.payload

def Message.controls (m : Message) : List Control :=
  (m.starts.flatMap fun fragment => fragment.controls) ++ m.last.controls

def Control.wire (masked : Bool) (c : Control) : List UInt8 :=
  wireFrame true (if c.isPing then 9 else 10) masked c.mask c.payload

def Fragment.wire (masked fin : Bool) (opcode : Int64) (fragment : Fragment) : List UInt8 :=
  fragment.controls.flatMap (Control.wire masked) ++
    wireFrame fin opcode masked fragment.mask fragment.payload

/-- Fragments of a message, of which the first has the opcode and only the last is final. -/
def fragmentsWire (masked : Bool) (last : Fragment) : Int64 → List Fragment → List UInt8
  | opcode, [] => last.wire masked true opcode
  | opcode, fragment :: more => fragment.wire masked false opcode ++ fragmentsWire masked last 0 more

def Message.wire (masked : Bool) (m : Message) : List UInt8 :=
  fragmentsWire masked m.last (Int64.ofNat m.opcode) m.starts

/-- The number of frames that answer pings and pongs. -/
def pings (controls : List Control) : Nat :=
  controls.countP fun c => c.isPing

section Assembling

variable (deflateRaw : List Int64 → List Int64) (inflateRaw : List Int64 → Option (List Int64))
  (random : Nat → Nat → Int64) (maskOutgoing masked : Bool)

/-- The mask of the frame with a number. -/
def maskBytes (count : Nat) : List Int64 :=
  [random count 0, random count 1, random count 2, random count 3]

/-- One pong for each ping, with its payload. -/
def pongs : Nat → List Control → List UInt8
  | _, [] => []
  | count, c :: controls =>
      if c.isPing then
        wireFrame true 10 maskOutgoing (maskBytes random count) c.payload ++
          pongs (count + 1) controls
      else pongs count controls

theorem pongs_append (first second : List Control) (count : Nat) :
    pongs random maskOutgoing count (first ++ second) =
      pongs random maskOutgoing count first ++
        pongs random maskOutgoing (count + pings first) second := by
  induction first generalizing count with
  | nil => rfl
  | cons c first ih =>
      rw [List.cons_append, pongs, pongs, pings, List.countP_cons]
      cases c.isPing with
      | true =>
          rw [if_pos rfl, if_pos rfl, if_pos rfl, ih, List.append_assoc, Nat.add_right_comm]
          rfl
      | false =>
          rw [if_neg Bool.false_ne_true, if_neg Bool.false_ne_true, if_neg Bool.false_ne_true]
          exact ih count

theorem pings_append (first second : List Control) :
    pings (first ++ second) = pings first + pings second :=
  List.countP_append

theorem writeFrameGeneric_pong (count : Nat) (conn : TinoxConn) (payload : List Int64) :
    writeFrameGeneric deflateRaw (random count) conn 10 payload maskOutgoing =
      { conn with
        outgoing := conn.outgoing ++ wireFrame true 10 maskOutgoing (maskBytes random count) payload } := by
  have notData : decide ((10 : Int64) = 1 ∨ (10 : Int64) = 2) = false := by decide
  have noBit : (0x80 ||| 0 ||| (10 &&& 0x0f) : Int64) = 0x80 ||| (10 &&& 0x0f) := by decide
  rw [writeFrameGeneric]
  simp only [notData, Bool.false_and, Bool.false_eq_true, if_false, noBit]
  rfl

theorem readMessageLoop_controls (controls : List Control) (s : Assembly) (count : Nat)
    {conn : TinoxConn} {rest : List UInt8}
    (isStream : conn.incoming.flatten = controls.flatMap (Control.wire masked) ++ rest) :
    ∃ later, later.flatten = rest ∧
      readMessageLoop deflateRaw inflateRaw random maskOutgoing masked conn count s =
        readMessageLoop deflateRaw inflateRaw random maskOutgoing masked
          ⟨later, conn.outgoing ++ pongs random maskOutgoing count controls, conn.wsCompressed⟩
          (count + pings controls) s := by
  induction controls generalizing conn count with
  | nil =>
      refine ⟨conn.incoming, isStream, ?_⟩
      rw [pongs, List.append_nil]
      rfl
  | cons c controls ih =>
      rw [List.flatMap_cons, List.append_assoc] at isStream
      rw [pongs, pings, List.countP_cons]
      rw [Control.wire] at isStream
      cases isKind : c.isPing with
      | true =>
          rw [isKind, if_pos rfl] at isStream
          rcases readFrameGeneric_wireFrame true 9 masked c.toBody (by have := c.few; omega)
            (fun _ => ⟨rfl, c.few⟩) conn isStream with ⟨later, isRead, isRest⟩
          rcases @ih (count + 1) ⟨later, conn.outgoing ++
            wireFrame true 10 maskOutgoing (maskBytes random count) c.payload,
            conn.wsCompressed⟩ isRest with ⟨last, isLast, isSame⟩
          refine ⟨last, isLast, ?_⟩
          rw [readMessageLoop, isRead]
          dsimp only
          rw [dif_pos (by decide), writeFrameGeneric_pong, isSame, if_pos rfl, if_pos rfl,
            List.append_assoc, Nat.add_right_comm]
          rfl
      | false =>
          rw [isKind, if_neg Bool.false_ne_true] at isStream
          rcases readFrameGeneric_wireFrame true 10 masked c.toBody (by have := c.few; omega)
            (fun _ => ⟨rfl, c.few⟩) conn isStream with ⟨later, isRead, isRest⟩
          rcases @ih count ⟨later, conn.outgoing, conn.wsCompressed⟩ isRest with
            ⟨last, isLast, isSame⟩
          refine ⟨last, isLast, ?_⟩
          rw [readMessageLoop, isRead]
          dsimp only
          rw [dif_neg (by decide), dif_pos (by decide), isSame, if_neg Bool.false_ne_true,
            if_neg Bool.false_ne_true]
          rfl

/-- The next fragment of a message has this opcode: that of the message if it is the first. -/
def Expects (s : Assembly) (opcode : Fin 16) (msgOpcode : Int64) : Prop :=
  (s.assembling = false ∧ s.payload = [] ∧ (1 ≤ opcode.val ∧ opcode.val ≤ 7) ∧
      Int64.ofNat opcode = msgOpcode) ∨
    (s.assembling = true ∧ opcode.val = 0 ∧ s.msgOpcode = msgOpcode ∧ s.msgCompressed = false)

section Frames

variable {s : Assembly} {opcode : Fin 16} {msgOpcode : Int64} (expected : Expects s opcode msgOpcode)

include expected

theorem Expects.small : opcode.val ≤ 7 := by
  rcases expected with ⟨_, _, isData, _⟩ | ⟨_, isZero, _, _⟩
  · exact isData.2
  · omega

theorem Expects.apart : Int64.ofNat opcode ≠ 9 ∧ Int64.ofNat opcode ≠ 10 ∧ Int64.ofNat opcode ≠ 8 ∧
    Int64.ofNat opcode ≠ -1 ∧ Int64.ofNat opcode ≠ -2 := by
  have small := expected.small
  have among : ∀ code : Fin 16, code.val ≤ 7 → Int64.ofNat code ≠ 9 ∧ Int64.ofNat code ≠ 10 ∧
      Int64.ofNat code ≠ 8 ∧ Int64.ofNat code ≠ -1 ∧ Int64.ofNat code ≠ -2 := by
    decide
  exact among opcode small

theorem readMessageLoop_frame {fin : Bool} {payload : List Int64} {count : Nat}
    {conn next : TinoxConn}
    (isRead : readFrameGeneric conn masked = (⟨fin, Int64.ofNat opcode, payload, false⟩, next)) :
    readMessageLoop deflateRaw inflateRaw random maskOutgoing masked conn count s =
      if fin then (⟨true, msgOpcode, s.payload ++ payload, false⟩, next, count)
      else if 16777216 < (s.payload ++ payload).length then
        failed deflateRaw random maskOutgoing next count 1009
      else
        readMessageLoop deflateRaw inflateRaw random maskOutgoing masked next count
          ⟨true, msgOpcode, false, s.payload ++ payload⟩ := by
  rcases expected.apart with ⟨notPing, notPong, notClose, notEnd, notError⟩
  rw [readMessageLoop, isRead]
  simp only [dif_neg notPing, dif_neg notPong, if_neg notClose, dif_neg notEnd, if_neg notError]
  rcases expected with ⟨fresh, isEmpty, isData, isOpcode⟩ | ⟨started, isZero, isOpcode, isPlain⟩
  · have notZero : Int64.ofNat opcode ≠ 0 := by
      have among : ∀ code : Fin 16, 1 ≤ code.val → Int64.ofNat code ≠ 0 := by decide
      exact among opcode isData.1
    rw [if_pos fresh, if_neg notZero, isEmpty, isOpcode]
    rfl
  · have notFresh : ¬ s.assembling = false := by
      rw [started]
      exact fun isFalse => Bool.noConfusion isFalse
    have isContinuation : Int64.ofNat opcode = 0 := by
      rw [isZero]
      rfl
    have isNext : ({ s with payload := s.payload ++ payload } : Assembly) =
        ⟨true, msgOpcode, false, s.payload ++ payload⟩ := by
      rw [← started, ← isOpcode, ← isPlain]
    rw [if_neg notFresh, if_neg (not_not.mpr isContinuation), isNext, isOpcode, isPlain]
    rfl

theorem readMessageLoop_fragment {fin : Bool} {fragment : Fragment}
    (short : fragment.payload.length ≤ 16777216) (count : Nat) {conn : TinoxConn}
    {rest : List UInt8}
    (isStream : conn.incoming.flatten = fragment.wire masked fin (Int64.ofNat opcode) ++ rest) :
    ∃ later next, later.flatten = rest ∧
      next = (⟨later, conn.outgoing ++ pongs random maskOutgoing count fragment.controls,
        conn.wsCompressed⟩ : TinoxConn) ∧
      readMessageLoop deflateRaw inflateRaw random maskOutgoing masked conn count s =
        if fin then
          (⟨true, msgOpcode, s.payload ++ fragment.payload, false⟩, next,
            count + pings fragment.controls)
        else if 16777216 < (s.payload ++ fragment.payload).length then
          failed deflateRaw random maskOutgoing next (count + pings fragment.controls) 1009
        else
          readMessageLoop deflateRaw inflateRaw random maskOutgoing masked next
            (count + pings fragment.controls)
            ⟨true, msgOpcode, false, s.payload ++ fragment.payload⟩ := by
  rw [Fragment.wire, List.append_assoc] at isStream
  rcases readMessageLoop_controls deflateRaw inflateRaw random maskOutgoing masked
    fragment.controls s count isStream with ⟨middle, isFrame, isSame⟩
  have noControl : 8 ≤ opcode.val ∧ opcode.val ≤ 10 → fin = true ∧ fragment.payload.length ≤ 125 := by
    rintro ⟨large, _⟩
    have small := expected.small
    omega
  rcases readFrameGeneric_wireFrame fin opcode masked fragment.toBody short noControl
    ⟨middle, _, _⟩ isFrame with ⟨later, isRead, isRest⟩
  refine ⟨later, _, isRest, rfl, ?_⟩
  rw [isSame]
  exact readMessageLoop_frame deflateRaw inflateRaw random maskOutgoing masked expected isRead

end Frames

theorem readMessageLoop_fragments {s : Assembly} {opcode : Fin 16} {msgOpcode : Int64}
    (expected : Expects s opcode msgOpcode) (starts : List Fragment) (last : Fragment)
    (within : s.payload.length + (starts.flatMap fun fragment => fragment.payload).length ≤ 16777216)
    (short : last.payload.length ≤ 16777216) (count : Nat) (conn : TinoxConn) {rest : List UInt8}
    (isStream : conn.incoming.flatten =
      fragmentsWire masked last (Int64.ofNat opcode) starts ++ rest) :
    ∃ later, later.flatten = rest ∧
      readMessageLoop deflateRaw inflateRaw random maskOutgoing masked conn count s =
        (⟨true, msgOpcode,
            s.payload ++ (starts.flatMap fun fragment => fragment.payload) ++ last.payload, false⟩,
          ⟨later, conn.outgoing ++ pongs random maskOutgoing count
              ((starts.flatMap fun fragment => fragment.controls) ++ last.controls),
            conn.wsCompressed⟩,
          count + pings ((starts.flatMap fun fragment => fragment.controls) ++ last.controls)) := by
  induction starts generalizing s opcode count conn with
  | nil =>
      rw [fragmentsWire] at isStream
      rcases readMessageLoop_fragment deflateRaw inflateRaw random maskOutgoing masked expected
        short count isStream with ⟨later, next, isRest, rfl, isRead⟩
      refine ⟨later, isRest, ?_⟩
      rw [isRead, if_pos rfl, List.flatMap_nil, List.append_nil]
      rfl
  | cons fragment starts ih =>
      rw [fragmentsWire, List.append_assoc] at isStream
      rw [List.flatMap_cons, List.length_append] at within
      have isNext : Expects ⟨true, msgOpcode, false, s.payload ++ fragment.payload⟩ 0 msgOpcode :=
        Or.inr ⟨rfl, rfl, rfl, rfl⟩
      have notLong : ¬ 16777216 < (s.payload ++ fragment.payload).length := by
        rw [List.length_append]
        omega
      have stillWithin : (s.payload ++ fragment.payload).length +
          (starts.flatMap fun fragment => fragment.payload).length ≤ 16777216 := by
        rw [List.length_append]
        omega
      rcases readMessageLoop_fragment deflateRaw inflateRaw random maskOutgoing masked expected
        (by omega) count isStream with ⟨middle, next, isFragments, rfl, isRead⟩
      rcases ih isNext stillWithin (count + pings fragment.controls)
        ⟨middle, _, _⟩ isFragments with ⟨later, isRest, isSame⟩
      refine ⟨later, isRest, ?_⟩
      rw [isRead, if_neg Bool.false_ne_true, if_neg notLong, isSame, List.flatMap_cons,
        List.flatMap_cons, List.append_assoc fragment.controls,
        pongs_append random maskOutgoing fragment.controls, pings_append fragment.controls]
      simp only [List.append_assoc, Nat.add_assoc]

theorem readMessageGeneric_wire (m : Message) (within : m.started.length ≤ 16777216)
    (short : m.last.payload.length ≤ 16777216) (count : Nat) {conn : TinoxConn} {rest : List UInt8}
    (isStream : conn.incoming.flatten = m.wire masked ++ rest) :
    ∃ later, later.flatten = rest ∧
      readMessageGeneric deflateRaw inflateRaw random maskOutgoing masked conn count =
        (⟨true, Int64.ofNat m.opcode, m.payload, false⟩,
          ⟨later, conn.outgoing ++ pongs random maskOutgoing count m.controls, conn.wsCompressed⟩,
          count + pings m.controls) := by
  have isFirst : Expects ⟨false, -1, false, []⟩ m.opcode (Int64.ofNat m.opcode) :=
    Or.inl ⟨rfl, rfl, m.isData, rfl⟩
  apply readMessageLoop_fragments deflateRaw inflateRaw random maskOutgoing masked isFirst m.starts
    m.last _ short count conn isStream
  rw [List.length_nil, Nat.zero_add]
  exact within

/-- Messages one after the other are read as they are, whatever their fragments, the pings and
pongs between them and the pieces in which they arrive; each ping gets its pong, in order. -/
theorem readMessages_wire (messages : List Message)
    (within : ∀ m ∈ messages, m.started.length ≤ 16777216 ∧ m.last.payload.length ≤ 16777216)
    (count : Nat) (conn : TinoxConn) (rest : List UInt8)
    (isStream : conn.incoming.flatten = messages.flatMap (Message.wire masked) ++ rest) :
    ∃ later, later.flatten = rest ∧
      readMessages deflateRaw inflateRaw random maskOutgoing masked messages.length conn count =
        (messages.map fun m => ⟨true, Int64.ofNat m.opcode, m.payload, false⟩,
          ⟨later, conn.outgoing ++ pongs random maskOutgoing count (messages.flatMap Message.controls),
            conn.wsCompressed⟩,
          count + pings (messages.flatMap Message.controls)) := by
  induction messages generalizing count conn with
  | nil =>
      refine ⟨conn.incoming, isStream, ?_⟩
      rw [List.flatMap_nil, pongs, List.append_nil]
      rfl
  | cons m messages ih =>
      rw [List.flatMap_cons, List.append_assoc] at isStream
      rcases within m List.mem_cons_self with ⟨startedWithin, short⟩
      rcases readMessageGeneric_wire deflateRaw inflateRaw random maskOutgoing masked m startedWithin
        short count isStream with ⟨middle, isMessages, isRead⟩
      rcases ih (fun other member => within other (List.mem_cons_of_mem m member))
        (count + pings m.controls)
        ⟨middle, conn.outgoing ++ pongs random maskOutgoing count m.controls, conn.wsCompressed⟩
        isMessages with ⟨later, isRest, isSame⟩
      refine ⟨later, isRest, ?_⟩
      rw [List.length_cons, readMessages, isRead]
      dsimp only
      rw [isSame, List.flatMap_cons, pongs_append, pings_append]
      simp only [List.append_assoc, Nat.add_assoc, List.map_cons]

theorem readMessageLoop_overCap {s : Assembly} {opcode : Fin 16} {msgOpcode : Int64}
    (expected : Expects s opcode msgOpcode) (starts : List Fragment) (last : Fragment)
    (short : ∀ fragment ∈ starts, fragment.payload.length ≤ 16777216)
    (startsWithin : s.payload.length ≤ 16777216)
    (tooMuch : 16777216 <
      s.payload.length + (starts.flatMap fun fragment => fragment.payload).length)
    (count : Nat) (conn : TinoxConn) {rest : List UInt8}
    (isStream : conn.incoming.flatten =
      fragmentsWire masked last (Int64.ofNat opcode) starts ++ rest) :
    (readMessageLoop deflateRaw inflateRaw random maskOutgoing masked conn count s).1 =
      ⟨true, -2, [], false⟩ := by
  induction starts generalizing s opcode count conn with
  | nil => exact absurd tooMuch (Nat.not_lt.mpr startsWithin)
  | cons fragment starts ih =>
      rw [fragmentsWire, List.append_assoc] at isStream
      rw [List.flatMap_cons, List.length_append, ← Nat.add_assoc, ← List.length_append] at tooMuch
      have isNext : Expects ⟨true, msgOpcode, false, s.payload ++ fragment.payload⟩ 0 msgOpcode :=
        Or.inr ⟨rfl, rfl, rfl, rfl⟩
      rcases readMessageLoop_fragment deflateRaw inflateRaw random maskOutgoing masked expected
        (short fragment List.mem_cons_self) count isStream with
        ⟨middle, next, isFragments, rfl, isRead⟩
      rw [isRead, if_neg Bool.false_ne_true]
      by_cases isOver : 16777216 < (s.payload ++ fragment.payload).length
      · rw [if_pos isOver, failed]
      · rw [if_neg isOver]
        exact ih isNext (fun other member => short other (List.mem_cons_of_mem fragment member))
          (Nat.not_lt.mp isOver) tooMuch _ ⟨middle, _, _⟩ isFragments

end Assembling

/-- A fragment with no mask's bits. -/
def plain (payload : List Int64) (isBytes : ∀ b ∈ payload, bits b < 256) (controls : List Control) :
    Fragment :=
  ⟨⟨[0, 0, 0, 0], payload, rfl, isBytes⟩, controls⟩

theorem isByte_singleton {x : Int64} (isByte : bits x < 256) : ∀ b ∈ [x], bits b < 256 := by
  intro b member
  rw [List.mem_singleton.mp member]
  exact isByte

/-- A text in two fragments with a ping between them, and a message in one frame. -/
def sampleMessages : List Message :=
  [⟨⟨1, by decide⟩, by decide, [plain [72] (isByte_singleton (by decide)) []],
      plain [105] (isByte_singleton (by decide))
        [⟨⟨[1, 2, 3, 4], [7], rfl, isByte_singleton (by decide)⟩, true, by decide⟩]⟩,
    ⟨⟨2, by decide⟩, by decide, [], plain [255] (isByte_singleton (by decide)) []⟩]

/-- The messages are read by a server. -/
theorem readMessages_sample :
    ∃ later, later.flatten = [0x81] ∧
      readMessages id some (fun _ _ => 0) false true sampleMessages.length
          ⟨[sampleMessages.flatMap (Message.wire true), [0x81]], [], false⟩ 0 =
        (sampleMessages.map fun m => ⟨true, Int64.ofNat m.opcode, m.payload, false⟩,
          ⟨later, [] ++ pongs (fun _ _ => 0) false 0 (sampleMessages.flatMap Message.controls), false⟩,
          0 + pings (sampleMessages.flatMap Message.controls)) := by
  apply readMessages_wire id some (fun _ _ => 0) false true sampleMessages _ 0
    ⟨[sampleMessages.flatMap (Message.wire true), [0x81]], [], false⟩ [0x81]
  · rw [List.flatten_cons, List.flatten_singleton]
  · intro m member
    rcases List.mem_cons.mp member with rfl | member
    · decide
    · rw [List.mem_singleton.mp member]
      decide

/-- A fragment of zeros. -/
def zeros (n : Nat) : Fragment :=
  plain (List.replicate n 0) (fun b member => by
    rw [List.eq_of_mem_replicate member]
    decide) []

theorem length_zeros (n : Nat) : (zeros n).payload.length = n :=
  List.length_replicate

/-- A message whose fragments before the last exceed the cap by one byte. -/
def overCap : Message :=
  ⟨⟨2, by decide⟩, by decide, [zeros 16777216, zeros 1], zeros 0⟩

/-- A message over the cap ends the connection with an error. -/
theorem readMessageGeneric_overCap :
    (readMessageGeneric id some (fun _ _ => 0) false true ⟨[overCap.wire true], [], false⟩ 0).1 =
        ⟨true, -2, [], false⟩ ∧
      Int64.ofNat overCap.opcode = 2 := by
  have isFirst : Expects ⟨false, -1, false, []⟩ overCap.opcode 2 :=
    Or.inl ⟨rfl, rfl, by decide, rfl⟩
  refine ⟨?_, rfl⟩
  apply readMessageLoop_overCap id some (fun _ _ => 0) false true isFirst overCap.starts overCap.last
  · intro fragment member
    rw [overCap] at member
    simp only [List.mem_cons, List.not_mem_nil, or_false] at member
    rcases member with rfl | rfl
    · exact Nat.le_of_eq (length_zeros _)
    · rw [length_zeros]
      decide
  · exact Nat.zero_le _
  · rw [overCap]
    simp only [List.flatMap_cons, List.flatMap_nil, List.length_append, length_zeros, List.length_nil]
    decide
  · rw [List.flatten_singleton, List.append_nil]
    rfl

end Tinox.Net
