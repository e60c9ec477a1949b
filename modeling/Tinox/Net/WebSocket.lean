import Tinox.Net.Connection

/-!
# WebSocket frames

A frame that is written is read back, whatever follows it and however it is cut into
pieces.
-/

namespace Tinox.Net

open Segments

/-- `WsFrame`. -/
structure WsFrame where
  fin : Bool
  opcode : Int64
  payload : List Int64
  rsv1 : Bool
  deriving DecidableEq

/-- The payload's values with those of a mask. -/
def unmask (mask raw : List Int64) : List Int64 :=
  raw.mapIdx fun i b => b ^^^ mask.getD (i % 4) 0

/-- The extended lengths in `Ws::readFrameGeneric`; `none` at the end of the connection. -/
def readLength (conn : TinoxConn) (plen : Int64) : Option Int64 × TinoxConn :=
  if plen = 126 then
    let ext := httpConnReadN conn 2
    if ext.1.length < 2 then (none, ext.2)
    else (some ((ext.1.getD 0 0 <<< 8) ||| ext.1.getD 1 0), ext.2)
  else if plen = 127 then
    let ext := httpConnReadN conn 8
    if ext.1.length < 8 then (none, ext.2)
    else (some (ext.1.foldl (fun plen b => (plen <<< 8) ||| b) 0), ext.2)
  else (some plen, conn)

/-- The mask in `Ws::readFrameGeneric`. -/
def readMask (conn : TinoxConn) (masked : Bool) : Option (List Int64) × TinoxConn :=
  if masked then
    let mask := httpConnReadN conn 4
    if mask.1.length < 4 then (none, mask.2) else (some mask.1, mask.2)
  else (some [0, 0, 0, 0], conn)

/-- The payload in `Ws::readFrameGeneric`. -/
def readPayload (conn : TinoxConn) (plen : Int64) (masked : Bool) (mask : List Int64) :
    Option (List Int64) × TinoxConn :=
  if 0 < plen then
    let raw := httpConnReadN conn plen
    if (raw.1.length : Int) < plen.toInt then (none, raw.2)
    else (some (if masked then unmask mask raw.1 else raw.1), raw.2)
  else (some [], conn)

/-- `Ws::readFrameGeneric`. -/
def readFrameGeneric (conn : TinoxConn) (requireMasked : Bool) : WsFrame × TinoxConn :=
  let bad : WsFrame := ⟨true, -1, [], false⟩
  let rejected : WsFrame := ⟨true, -2, [], false⟩
  let hdr := httpConnReadN conn 2
  if hdr.1.length < 2 then (bad, hdr.2)
  else
    let b0 := hdr.1.getD 0 0
    let b1 := hdr.1.getD 1 0
    let fin := b0 &&& 0x80 != 0
    let rsv1 := b0 &&& 0x40 != 0
    let rsvOther := b0 &&& 0x30 != 0
    let opcode := b0 &&& 0x0f
    let masked := b1 &&& 0x80 != 0
    let plen := b1 &&& 0x7f
    let isControlFrame := decide (8 ≤ opcode ∧ opcode ≤ 10)
    if rsvOther || (rsv1 && (isControlFrame || !conn.wsCompressed)) || masked != requireMasked then
      (rejected, hdr.2)
    else if isControlFrame && (!fin || decide (125 < plen)) then (rejected, hdr.2)
    else
      match readLength hdr.2 plen with
      | (none, conn) => (bad, conn)
      | (some plen, conn) =>
          if plen < 0 ∨ 16777216 < plen then (rejected, conn)
          else
            match readMask conn masked with
            | (none, conn) => (bad, conn)
            | (some mask, conn) =>
                match readPayload conn plen masked mask with
                | (none, conn) => (bad, conn)
                | (some payload, conn) => (⟨fin, opcode, payload, rsv1⟩, conn)

/-- The second byte of a frame and its extended length. -/
def lengthBytes (maskBit n : Int64) : List Int64 :=
  if n < 126 then [maskBit ||| n]
  else if n < 65536 then [maskBit ||| 126, (n >>> 8) &&& 0xff, n &&& 0xff]
  else
    (maskBit ||| 127) ::
      ([56, 48, 40, 32, 24, 16, 8, 0] : List Int64).map fun shift => (n >>> shift) &&& 0xff

/-- The mask and the payload of a frame. -/
def bodyBytes (masked : Bool) (maskBytes payload : List Int64) : List Int64 :=
  if masked then
    maskBytes ++ payload.mapIdx fun i b => (b &&& 0xff) ^^^ maskBytes.getD (i % 4) 0
  else payload.map (· &&& 0xff)

section Writing

/- `tinoxDeflateRaw`, and the values of the calls of `randomInt(0, 256)`. -/
variable (deflateRaw : List Int64 → List Int64) (random : Nat → Int64)

/-- `Ws::writeFrameGeneric`. -/
def writeFrameGeneric (conn : TinoxConn) (opcode : Int64) (payload : List Int64) (masked : Bool) :
    TinoxConn :=
  let compressed := decide (opcode = 1 ∨ opcode = 2) && conn.wsCompressed
  let actualPayload := if compressed then deflateRaw payload else payload
  let rsv1Bit : Int64 := if compressed then 0x40 else 0
  let maskBit : Int64 := if masked then 0x80 else 0
  httpConnWriteBytes conn <|
    (0x80 ||| rsv1Bit ||| (opcode &&& 0x0f)) ::
      lengthBytes maskBit (Int64.ofNat actualPayload.length) ++
      bodyBytes masked [random 0, random 1, random 2, random 3] actualPayload

end Writing

theorem first_byte : ∀ opcode : Fin 16,
    let b0 := byteValue (lowByte (0x80 ||| 0 ||| (Int64.ofNat opcode &&& 0x0f)))
    (b0 &&& 0x80 != 0) = true ∧ (b0 &&& 0x40 != 0) = false ∧ (b0 &&& 0x30 != 0) = false ∧
      b0 &&& 0x0f = Int64.ofNat opcode := by
  decide

theorem second_byte : ∀ (masked : Bool) (n : Fin 128),
    let b1 := byteValue (lowByte ((if masked then 0x80 else 0) ||| Int64.ofNat n))
    (b1 &&& 0x80 != 0) = masked ∧ b1 &&& 0x7f = Int64.ofNat n := by
  decide

theorem lowByte_xor (x y : Int64) : lowByte (x ^^^ y) = lowByte x ^^^ lowByte y := by
  have isCut : ∀ z : Int64, (lowByte z).toBitVec = z.toBitVec.setWidth 8 := by
    intro z
    apply BitVec.eq_of_toNat_eq
    rw [BitVec.toNat_setWidth]
    exact toNat_lowByte z
  apply UInt8.toBitVec_inj.mp
  rw [UInt8.toBitVec_xor, isCut, isCut, isCut, Int64.toBitVec_xor, BitVec.setWidth_xor]

theorem byteValue_xor (a b : UInt8) : byteValue (a ^^^ b) = byteValue a ^^^ byteValue b := by
  apply bits_inj.mp
  have isXor : bits (byteValue a ^^^ byteValue b) = bits (byteValue a) ^^^ bits (byteValue b) := by
    rw [bits, Int64.toBitVec_xor, BitVec.toNat_xor]
    rfl
  rw [isXor, bits_byteValue, bits_byteValue, bits_byteValue, UInt8.toNat_xor]

theorem unmask_byte {x : Int64} (isByte : bits x < 256) (m : Int64) :
    byteValue (lowByte ((x &&& 0xff) ^^^ m)) ^^^ byteValue (lowByte m) = x := by
  rw [← byteValue_xor, lowByte_xor, lowByte_and, UInt8.xor_assoc, UInt8.xor_self, UInt8.xor_zero,
    byteValue_lowByte isByte]

theorem readLength_two {n : Nat} (medium : n < 65536) (conn : TinoxConn) {rest : List UInt8}
    (isStream : conn.incoming.flatten =
      [lowByte ((Int64.ofNat n >>> 8) &&& 0xff), lowByte (Int64.ofNat n &&& 0xff)] ++ rest) :
    ∃ later, readLength conn 126 = (some (Int64.ofNat n), { conn with incoming := later }) ∧
      later.flatten = rest := by
  rcases @httpConnReadN_spec conn 2 _ _ rfl (by decide) isStream with ⟨later, isRead, isRest⟩
  have first := @shifted_byte n (by omega) 8 8 (by decide)
  have isLast := toNat_lowByte (Int64.ofNat n &&& 0xff)
  rw [bits_and, bits_ofNat (by omega)] at isLast
  have isLength : (byteValue (lowByte ((Int64.ofNat n >>> 8) &&& 0xff)) <<< 8) |||
      byteValue (lowByte (Int64.ofNat n &&& 0xff)) = Int64.ofNat n := by
    apply bits_inj.mp
    rw [bits_shiftLeft_or _ (by rw [bits_byteValue, first]; omega), bits_byteValue, first, isLast,
      bits_ofNat (by omega)]
    omega
  refine ⟨later, ?_, isRest⟩
  rw [readLength, if_pos rfl, isRead]
  exact congrArg (fun plen => (some plen, { conn with incoming := later })) isLength

/-- The number that bytes write behind a number. -/
def bigEndian (start : Nat) (bytes : List UInt8) : Nat :=
  bytes.foldl (fun value b => value * 256 + b.toNat) start

theorem le_bigEndian (start : Nat) (bytes : List UInt8) : start ≤ bigEndian start bytes := by
  induction bytes generalizing start with
  | nil => exact Nat.le_refl start
  | cons b bytes ih =>
      have later := ih (start * 256 + b.toNat)
      exact Nat.le_trans (by omega) later

theorem foldl_bytes (bytes : List UInt8) {start : Int64}
    (small : bigEndian (bits start) bytes < 2 ^ 63) :
    bits ((bytes.map byteValue).foldl (fun plen b => (plen <<< 8) ||| b) start) =
      bigEndian (bits start) bytes := by
  induction bytes generalizing start with
  | nil => rfl
  | cons b bytes ih =>
      have within : bits start * 256 + b.toNat < 2 ^ 63 := Nat.lt_of_le_of_lt (le_bigEndian _ _) small
      have isNext := @bits_shiftLeft_or start b (by omega)
      have isNumber : bigEndian (bits start) (b :: bytes) =
          bigEndian (bits ((start <<< 8) ||| byteValue b)) bytes := by
        rw [isNext]
        rfl
      rw [isNumber] at small ⊢
      exact ih small

theorem readLength_eight {n : Nat} {bytes : List UInt8} (eight : bytes.length = 8)
    (isNumber : bigEndian 0 bytes = n) (short : n < 2 ^ 63) (conn : TinoxConn) {rest : List UInt8}
    (isStream : conn.incoming.flatten = bytes ++ rest) :
    ∃ later, readLength conn 127 = (some (Int64.ofNat n), { conn with incoming := later }) ∧
      later.flatten = rest := by
  have isSize : bits 8 = bytes.length := eight.symm
  rcases httpConnReadN_spec conn isSize (by decide) isStream with ⟨later, isRead, isRest⟩
  have zero : bits 0 = 0 := rfl
  have isBits := foldl_bytes bytes (by rw [zero, isNumber]; omega)
  rw [zero, isNumber, ← @bits_ofNat n (by omega)] at isBits
  have notShort : ¬ (bytes.map byteValue).length < 8 := by
    rw [List.length_map, eight]
    exact Nat.lt_irrefl 8
  refine ⟨later, ?_, isRest⟩
  rw [readLength, if_neg (by decide), if_pos rfl, isRead]
  simp only [if_neg notShort, bits_inj.mp isBits]

theorem bigEndian_map (f : Int64 → UInt8) :
    bigEndian 0 (([56, 48, 40, 32, 24, 16, 8, 0] : List Int64).map f) =
      (((((((f 56).toNat * 256 + (f 48).toNat) * 256 + (f 40).toNat) * 256 + (f 32).toNat) * 256 +
        (f 24).toNat) * 256 + (f 16).toNat) * 256 + (f 8).toNat) * 256 + (f 0).toNat := by
  simp only [bigEndian, List.map_cons, List.map_nil, List.foldl_cons, List.foldl_nil, Nat.zero_mul,
    Nat.zero_add]

theorem bigEndian_shifted {n : Nat} (short : n < 2 ^ 63) :
    bigEndian 0 (([56, 48, 40, 32, 24, 16, 8, 0] : List Int64).map fun shift =>
      lowByte ((Int64.ofNat n >>> shift) &&& 0xff)) = n := by
  have isByte : ∀ (s : Int64) (k : Nat), (s.toBitVec.smod 64).toNat = k →
      (lowByte ((Int64.ofNat n >>> s) &&& 0xff)).toNat = n / 2 ^ k % 256 :=
    fun s k isShift => shifted_byte (by omega) isShift
  have joined : ∀ j k, j = k + 8 → n / 2 ^ j * 256 + n / 2 ^ k % 256 = n / 2 ^ k := by
    rintro _ k rfl
    rw [Nat.pow_add, ← Nat.div_div_eq_div_mul]
    exact Nat.div_add_mod' _ _
  have highest : n / 2 ^ 56 % 256 = n / 2 ^ 56 := Nat.mod_eq_of_lt (by omega)
  rw [bigEndian_map, isByte 56 56 (by decide), highest, isByte 48 48 (by decide), joined 56 48 rfl,
    isByte 40 40 (by decide), joined 48 40 rfl, isByte 32 32 (by decide), joined 40 32 rfl,
    isByte 24 24 (by decide), joined 32 24 rfl, isByte 16 16 (by decide), joined 24 16 rfl,
    isByte 8 8 (by decide), joined 16 8 rfl, isByte 0 0 (by decide), joined 8 0 rfl]
  exact Nat.div_one n

theorem length_spec {n : Nat} (short : n < 2 ^ 63) (masked : Bool) :
    ∃ second ext, (lengthBytes (if masked then 0x80 else 0) (Int64.ofNat n)).map lowByte =
        second :: ext ∧
      (byteValue second &&& 0x80 != 0) = masked ∧
      (n ≤ 125 → byteValue second &&& 0x7f = Int64.ofNat n) ∧
      (125 < n → 125 < byteValue second &&& 0x7f) ∧
      ∀ (conn : TinoxConn) (rest : List UInt8), conn.incoming.flatten = ext ++ rest →
        ∃ later, readLength conn (byteValue second &&& 0x7f) =
            (some (Int64.ofNat n), { conn with incoming := later }) ∧ later.flatten = rest := by
  by_cases small : n < 126
  · have isSmall : Int64.ofNat n < 126 := (ofNat_lt (by omega) (by decide)).mpr small
    have apart : ∀ m : Int64, ¬ m < 126 → Int64.ofNat n ≠ m := by
      rintro m large rfl
      exact large isSmall
    rcases second_byte masked ⟨n, by omega⟩ with ⟨isMasked, isLength⟩
    refine ⟨_, [], by rw [lengthBytes, if_pos isSmall]; rfl, isMasked, fun _ => isLength,
      fun _ => by omega, ?_⟩
    intro conn rest isStream
    refine ⟨conn.incoming, ?_, isStream⟩
    rw [isLength, readLength, if_neg (apart 126 (by decide)), if_neg (apart 127 (by decide))]
  · have notSmall : ¬ Int64.ofNat n < 126 := fun isSmall =>
      small ((ofNat_lt (by omega) (by decide)).mp isSmall)
    by_cases medium : n < 65536
    · have isMedium : Int64.ofNat n < 65536 := (ofNat_lt (by omega) (by decide)).mpr medium
      have second := second_byte masked 126
      have isLength : byteValue (lowByte ((if masked then 0x80 else 0) ||| 126)) &&& 0x7f = 126 :=
        second.2
      refine ⟨lowByte ((if masked then 0x80 else 0) ||| 126), _,
        by rw [lengthBytes, if_neg notSmall, if_pos isMedium]; rfl, second.1, fun _ => by omega,
        fun _ => by rw [isLength]; decide, ?_⟩
      intro conn rest isStream
      rw [isLength]
      exact readLength_two medium conn isStream
    · have notMedium : ¬ Int64.ofNat n < 65536 := fun isMedium =>
        medium ((ofNat_lt (by omega) (by decide)).mp isMedium)
      have second := second_byte masked 127
      have isLength : byteValue (lowByte ((if masked then 0x80 else 0) ||| 127)) &&& 0x7f = 127 :=
        second.2
      refine ⟨lowByte ((if masked then 0x80 else 0) ||| 127),
        ([56, 48, 40, 32, 24, 16, 8, 0] : List Int64).map fun shift =>
          lowByte ((Int64.ofNat n >>> shift) &&& 0xff), ?_, second.1, fun _ => by omega,
        fun _ => by rw [isLength]; decide, ?_⟩
      · rw [lengthBytes, if_neg notSmall, if_neg notMedium, List.map_cons, List.map_map]
        rfl
      · intro conn rest isStream
        rw [isLength]
        refine readLength_eight ?_ (bigEndian_shifted short) short conn isStream
        rw [List.length_map]
        rfl

section Payloads

variable {payload : List Int64} (isBytes : ∀ b ∈ payload, bits b < 256)

include isBytes

theorem payload_unmasked : ((payload.map (· &&& 0xff)).map lowByte).map byteValue = payload := by
  rw [List.map_map, List.map_map]
  conv_rhs => rw [← List.map_id payload]
  apply List.map_congr_left
  intro b member
  simp only [Function.comp_apply, lowByte_and, byteValue_lowByte (isBytes b member), id_eq]

theorem payload_masked (mask : List Int64) (four : mask.length = 4) :
    unmask ((mask.map lowByte).map byteValue)
      (((payload.mapIdx fun i b => (b &&& 0xff) ^^^ mask.getD (i % 4) 0).map lowByte).map byteValue) =
      payload := by
  apply List.ext_getElem
  · simp only [unmask, List.length_mapIdx, List.length_map]
  · intro i _ inside
    have isMask : i % 4 < mask.length := by
      rw [four]
      exact Nat.mod_lt i (by decide)
    simp only [unmask, List.getElem_mapIdx, List.getElem_map, List.getD_eq_getElem?_getD,
      List.getElem?_map, List.getElem?_eq_getElem isMask, Option.map_some, Option.getD_some]
    exact unmask_byte (isBytes _ (List.getElem_mem inside)) _

end Payloads

theorem readPayload_spec {conn : TinoxConn} {wire rest : List UInt8} (short : wire.length ≤ 16777216)
    (masked : Bool) (mask : List Int64) (isStream : conn.incoming.flatten = wire ++ rest) :
    ∃ later, readPayload conn (Int64.ofNat wire.length) masked mask =
        (some (if masked then unmask mask (wire.map byteValue) else wire.map byteValue),
          { conn with incoming := later }) ∧ later.flatten = rest := by
  have isBits : bits (Int64.ofNat wire.length) = wire.length := bits_ofNat (by omega)
  rcases httpConnReadN_spec conn isBits (by omega) isStream with ⟨later, isRead, isRest⟩
  by_cases some : 0 < wire.length
  · refine ⟨later, ?_, isRest⟩
    have positive : 0 < Int64.ofNat wire.length := (ofNat_lt (by decide) (by omega)).mpr some
    have enough : ¬ ((wire.map byteValue).length : Int) < (Int64.ofNat wire.length).toInt := by
      rw [List.length_map, Int64.toInt_ofNat_of_lt (by omega)]
      exact Int.lt_irrefl _
    rw [readPayload, if_pos positive, isRead]
    simp only [if_neg enough]
  · have isEmpty : wire = [] := List.length_eq_zero_iff.mp (Nat.eq_zero_of_not_pos some)
    subst isEmpty
    refine ⟨conn.incoming, ?_, isStream⟩
    cases masked <;> rfl

theorem body_spec {payload : List Int64} (isBytes : ∀ b ∈ payload, bits b < 256)
    (short : payload.length ≤ 16777216) (masked : Bool) {mask : List Int64} (four : mask.length = 4)
    {conn : TinoxConn} {rest : List UInt8}
    (isStream : conn.incoming.flatten = (bodyBytes masked mask payload).map lowByte ++ rest) :
    ∃ found middle later, readMask conn masked = (some found, middle) ∧
      readPayload middle (Int64.ofNat payload.length) masked found =
        (some payload, { conn with incoming := later }) ∧
      later.flatten = rest := by
  cases masked with
  | true =>
      rw [bodyBytes, if_pos rfl, List.map_append, List.append_assoc] at isStream
      have isSize : bits 4 = (mask.map lowByte).length := by
        rw [List.length_map, four]
        rfl
      rcases httpConnReadN_spec conn isSize (by decide) isStream with ⟨middle, isRead, isRest⟩
      have isLength : ((payload.mapIdx fun i b => (b &&& 0xff) ^^^ mask.getD (i % 4) 0).map
          lowByte).length = payload.length := by rw [List.length_map, List.length_mapIdx]
      have notShort : ¬ ((mask.map lowByte).map byteValue).length < 4 := by
        rw [List.length_map, List.length_map, four]
        exact Nat.lt_irrefl 4
      rcases @readPayload_spec { conn with incoming := middle } _ _ (isLength ▸ short) true
        ((mask.map lowByte).map byteValue) isRest with ⟨later, isPayload, isLater⟩
      refine ⟨(mask.map lowByte).map byteValue, { conn with incoming := middle }, later, ?_, ?_, isLater⟩
      · rw [readMask, if_pos rfl, isRead]
        simp only [if_neg notShort]
      · rw [isLength, if_pos rfl, payload_masked isBytes mask four] at isPayload
        exact isPayload
  | false =>
      rw [bodyBytes, if_neg Bool.false_ne_true] at isStream
      have isLength : ((payload.map (· &&& 0xff)).map lowByte).length = payload.length := by
        rw [List.length_map, List.length_map]
      rcases @readPayload_spec conn _ _ (isLength ▸ short) false [0, 0, 0, 0] isStream with
        ⟨later, isPayload, isLater⟩
      refine ⟨[0, 0, 0, 0], conn, later, rfl, ?_, isLater⟩
      rw [isLength, if_neg Bool.false_ne_true, payload_unmasked isBytes] at isPayload
      exact isPayload

section Header

variable {conn after : TinoxConn} {b0 b1 : Int64}
  (isRead : httpConnReadN conn 2 = ([b0, b1], after))

include isRead

theorem header_rejected {requireMasked : Bool}
    (otherMasking : ((b1 &&& 0x80 != 0) != requireMasked) = true) :
    (readFrameGeneric conn requireMasked).1 = ⟨true, -2, [], false⟩ := by
  have isRejected : ∀ first second : Bool, (first || second || (b1 &&& 0x80 != 0) != requireMasked) = true := by
    intro first second
    rw [otherMasking, Bool.or_true]
  rw [readFrameGeneric, isRead]
  have two : ¬ [b0, b1].length < 2 := Nat.lt_irrefl 2
  simp only [if_neg two, List.getD_cons_zero, List.getD_cons_succ, isRejected, if_true]

/-- The header of an uncompressed frame with the masking that is expected is accepted, that of a
control frame only if it is final and short. -/
theorem header_accepted {requireMasked fin : Bool} (isFin : (b0 &&& 0x80 != 0) = fin)
    (noRsv1 : (b0 &&& 0x40 != 0) = false) (noRsvOther : (b0 &&& 0x30 != 0) = false)
    (isMasked : (b1 &&& 0x80 != 0) = requireMasked)
    (isControl : 8 ≤ b0 &&& 0x0f ∧ b0 &&& 0x0f ≤ 10 → fin = true ∧ b1 &&& 0x7f ≤ 125)
    {plen : Int64} {afterLength : TinoxConn}
    (isLength : readLength after (b1 &&& 0x7f) = (some plen, afterLength))
    (within : ¬ (plen < 0 ∨ 16777216 < plen)) {mask payload : List Int64}
    {afterMask last : TinoxConn} (isMask : readMask afterLength requireMasked = (some mask, afterMask))
    (isPayload : readPayload afterMask plen requireMasked mask = (some payload, last)) :
    readFrameGeneric conn requireMasked = (⟨fin, b0 &&& 0x0f, payload, false⟩, last) := by
  have two : ¬ [b0, b1].length < 2 := Nat.lt_irrefl 2
  have notLong : ¬ ((decide (8 ≤ b0 &&& 0x0f ∧ b0 &&& 0x0f ≤ 10) &&
      (!fin || decide (125 < b1 &&& 0x7f))) = true) := by
    rw [Bool.and_eq_true, decide_eq_true_eq, Bool.or_eq_true, decide_eq_true_eq, Bool.not_eq_true']
    rintro ⟨control, notFinal | long⟩
    · exact Bool.noConfusion (notFinal.symm.trans (isControl control).1)
    · exact Int64.not_lt.mpr (isControl control).2 long
  rw [readFrameGeneric, isRead]
  simp only [if_neg two, List.getD_cons_zero, List.getD_cons_succ, if_neg notLong, noRsvOther, noRsv1, isMasked,
    Bool.false_and, Bool.or_false, bne_self_eq_false, Bool.false_eq_true, if_false, isLength,
    if_neg within, isMask, isPayload, isFin]

end Header

/-- A frame that is written is read back by a reader that expects its masking, and rejected by
one that expects the other. -/
theorem readFrameGeneric_writeFrameGeneric (deflateRaw : List Int64 → List Int64)
    (random : Nat → Int64) {opcode : Int64} (isOpcode : 0 ≤ opcode ∧ opcode ≤ 15)
    {payload : List Int64} (isBytes : ∀ b ∈ payload, 0 ≤ b ∧ b ≤ 255)
    (short : payload.length ≤ 16777216)
    (isControl : 8 ≤ opcode ∧ opcode ≤ 10 → payload.length ≤ 125) (masked : Bool)
    {conn : TinoxConn} (uncompressed : conn.wsCompressed = false) :
    ∃ written, (writeFrameGeneric deflateRaw random conn opcode payload masked).outgoing =
        conn.outgoing ++ written ∧
      ∀ (peer : TinoxConn) (rest : List UInt8), peer.incoming.flatten = written ++ rest →
        (∃ later, readFrameGeneric peer masked =
          (⟨true, opcode, payload, false⟩, { peer with incoming := later }) ∧ later.flatten = rest) ∧
        (readFrameGeneric peer (!masked)).1 = ⟨true, -2, [], false⟩ := by
  have isCode : ∃ code : Fin 16, opcode = Int64.ofNat code := by
    have low : 0 ≤ opcode.toInt := Int64.le_iff_toInt_le.mp isOpcode.1
    have high : opcode.toInt ≤ 15 := Int64.le_iff_toInt_le.mp isOpcode.2
    refine ⟨⟨opcode.toInt.toNat, by omega⟩, ?_⟩
    apply Int64.toInt_inj.mp
    rw [Int64.toInt_ofNat_of_lt (by omega), Int.toNat_of_nonneg low]
  have isByte : ∀ b ∈ payload, bits b < 256 := by
    intro b member
    rcases isBytes b member with ⟨low, high⟩
    have isBits := bits_of_nonneg low
    have below : b.toInt ≤ 255 := Int64.le_iff_toInt_le.mp high
    omega
  rcases isCode with ⟨code, rfl⟩
  rcases first_byte code with ⟨isFin, noRsv1, noRsvOther, isSame⟩
  rcases @length_spec payload.length (by omega) masked with
    ⟨second, ext, isText, isMasked, isShort, -, isLength⟩
  refine ⟨((0x80 ||| 0 ||| (Int64.ofNat code &&& 0x0f)) ::
      lengthBytes (if masked then 0x80 else 0) (Int64.ofNat payload.length) ++
      bodyBytes masked [random 0, random 1, random 2, random 3] payload).map lowByte, ?_, ?_⟩
  · rw [writeFrameGeneric, uncompressed, Bool.and_false]
    rfl
  · intro peer rest isStream
    rw [List.map_append, List.map_cons, isText] at isStream
    have isHeader : peer.incoming.flatten =
        [lowByte (0x80 ||| 0 ||| (Int64.ofNat code &&& 0x0f)), second] ++
          (ext ++ ((bodyBytes masked [random 0, random 1, random 2, random 3] payload).map lowByte ++
            rest)) := by
      rw [isStream, List.append_assoc]
      rfl
    rcases @httpConnReadN_spec peer 2 _ _ rfl (by decide) isHeader with ⟨afterHeader, isRead, isExt⟩
    rcases isLength { peer with incoming := afterHeader } _ isExt with ⟨afterLength, isPlen, isBody⟩
    constructor
    · rcases @body_spec _ isByte short masked [random 0, random 1, random 2, random 3] rfl
        { peer with incoming := afterLength } _ isBody with
        ⟨mask, afterMask, later, isMask, isPayload, isRest⟩
      refine ⟨later, ?_, isRest⟩
      have isAccepted := header_accepted isRead isFin noRsv1 noRsvOther isMasked ?_ isPlen ?_ isMask
        isPayload
      · rw [isSame] at isAccepted
        exact isAccepted
      · intro control
        rw [isSame] at control
        have few := isControl control
        rw [isShort few]
        refine ⟨rfl, ?_⟩
        exact Int64.not_lt.mp fun long => Nat.not_lt.mpr few ((ofNat_lt (by decide) (by omega)).mp long)
      · rintro (negative | large)
        · exact absurd ((ofNat_lt (by omega) (by decide)).mp negative) (Nat.not_lt_zero _)
        · exact Nat.not_lt.mpr short ((ofNat_lt (by decide) (by omega)).mp large)
    · apply header_rejected isRead
      rw [isMasked]
      cases masked <;> rfl

/-- A masked ping with the bytes 0 and 255. -/
theorem readFrameGeneric_ping :
    ∃ written, (writeFrameGeneric id (fun _ => 77) ⟨[], [], false⟩ 9 [0, 255] true).outgoing =
        [] ++ written ∧
      ∀ (peer : TinoxConn) (rest : List UInt8), peer.incoming.flatten = written ++ rest →
        (∃ later, readFrameGeneric peer true =
          (⟨true, 9, [0, 255], false⟩, { peer with incoming := later }) ∧ later.flatten = rest) ∧
        (readFrameGeneric peer (!true)).1 = ⟨true, -2, [], false⟩ := by
  apply readFrameGeneric_writeFrameGeneric id (fun _ => 77) _ _ _ _ true rfl
  · decide
  · intro b member
    rcases List.mem_cons.mp member with rfl | member
    · decide
    · rw [List.mem_singleton.mp member]
      decide
  · decide
  · exact fun _ => by decide

end Tinox.Net
