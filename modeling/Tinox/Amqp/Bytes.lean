import Tinox.Data.BigEndian
import Tinox.Net.Http2Frames

/-!
# Bytes of AMQP

What the readers and writers of both versions have in common: numbers of a fixed width, highest
byte first, and a cursor that notices the end of its bytes.
-/

namespace Tinox.Amqp

open Tinox.Net

/-- A byte of a number at a shift. -/
def byteAt (v shift : Int64) : Int64 :=
  (v >>> shift) &&& 0xFF

/-- The four bytes of a number. -/
def fourBytes (v : Int64) : List Int64 :=
  [byteAt v 24, byteAt v 16, byteAt v 8, v &&& 0xFF]

/-- The eight bytes of a number. -/
def eightBytes (v : Int64) : List Int64 :=
  ([56, 48, 40, 32, 24, 16, 8, 0] : List Int64).map (byteAt v)

/-- The bytes of a string. -/
def stringBytes (s : Runtime.CString) : List Int64 :=
  (List.range s.length).map fun i => charCodeAt s i &&& 0xFF

/-- The low bytes of numbers. -/
def lowBytes (data : List Int64) : List Int64 :=
  data.map (· &&& 0xFF)

/-- Every value is a byte. -/
def AreBytes (data : List Int64) : Prop :=
  ∀ b ∈ data, bits b < 256

/-- A cursor: the bytes from it on, its position, and whether a read went past the end. -/
structure Reader where
  bytes : List Int64
  pos : Nat
  truncated : Bool
  deriving DecidableEq

/-- One byte; zero past the end. -/
def readByte (r : Reader) : Int64 × Reader :=
  match r.bytes with
  | [] => (0, { r with truncated := true })
  | v :: bytes => (v, { r with bytes := bytes, pos := r.pos + 1 })

/-- The loop that reads a number of bytes behind those of `v`. -/
def readNumber : Nat → Int64 → Reader → Int64 × Reader
  | 0, v, r => (v, r)
  | width + 1, v, r =>
      let byte := readByte r
      readNumber width ((v <<< 8) ||| byte.1) byte.2

theorem bits_byteAt (v : Int64) {shift : Int64} {k : Nat}
    (isShift : (shift.toBitVec.smod 64).toNat = k) (inside : k ≤ 56) :
    bits (byteAt v shift) = bits v / 2 ^ k % 256 := by
  have isBits : (v >>> shift).toBitVec = v.toBitVec.sshiftRight k := by
    rw [Int64.toBitVec_shiftRight, BitVec.sshiftRight', isShift]
  have same : v.toBitVec.sshiftRight k &&& 255#64 = v.toBitVec >>> k &&& 255#64 := by
    apply BitVec.eq_of_getLsbD_eq
    intro i inWidth
    rw [BitVec.getLsbD_and, BitVec.getLsbD_and, BitVec.getLsbD_sshiftRight, BitVec.getLsbD_ushiftRight]
    by_cases low : i < 8
    · have within : k + i < 64 := by omega
      have notOver : ¬ 64 ≤ i := by omega
      simp only [within, notOver, decide_false, Bool.not_false, Bool.true_and, if_true]
    · have zero : (255#64).getLsbD i = false := by
        have all : ∀ j : Fin 64, 8 ≤ j.val → (255#64).getLsbD j = false := by decide
        exact all ⟨i, inWidth⟩ (Nat.le_of_not_lt low)
      rw [zero, Bool.and_false, Bool.and_false]
  have isMask : (0xFF : Int64).toBitVec = 255#64 := rfl
  rw [byteAt, bits, Int64.toBitVec_and, isMask, isBits, same, BitVec.toNat_and, BitVec.toNat_ushiftRight,
    Nat.shiftRight_eq_div_pow]
  exact Nat.and_two_pow_sub_one_eq_mod _ 8

theorem byteAt_eq (v : Int64) {shift : Int64} {k : Nat}
    (isShift : (shift.toBitVec.smod 64).toNat = 8 * k) (inside : k ≤ 7) :
    byteAt v shift = Int64.ofNat (bits v / 256 ^ k % 256) := by
  have isPower : 2 ^ (8 * k) = 256 ^ k := by rw [Nat.pow_mul]
  apply bits_inj.mp
  rw [bits_byteAt v isShift (by omega), bits_ofNat (by omega), isPower]

theorem low_eq (v : Int64) : v &&& 0xFF = Int64.ofNat (bits v / 256 ^ 0 % 256) := by
  apply bits_inj.mp
  rw [bits_and, bits_ofNat (by omega), Nat.pow_zero, Nat.div_one]

theorem fourBytes_eq (v : Int64) :
    fourBytes v = (BigEndian.digits 4 (bits v)).map Int64.ofNat := by
  rw [fourBytes, @byteAt_eq v 24 3 (by decide) (by decide), @byteAt_eq v 16 2 (by decide) (by decide),
    @byteAt_eq v 8 1 (by decide) (by decide), low_eq]
  rfl

theorem eightBytes_eq (v : Int64) :
    eightBytes v = (BigEndian.digits 8 (bits v)).map Int64.ofNat := by
  rw [eightBytes, List.map_cons, List.map_cons, List.map_cons, List.map_cons, List.map_cons,
    List.map_cons, List.map_cons, List.map_singleton, @byteAt_eq v 56 7 (by decide) (by decide),
    @byteAt_eq v 48 6 (by decide) (by decide), @byteAt_eq v 40 5 (by decide) (by decide),
    @byteAt_eq v 32 4 (by decide) (by decide), @byteAt_eq v 24 3 (by decide) (by decide),
    @byteAt_eq v 16 2 (by decide) (by decide), @byteAt_eq v 8 1 (by decide) (by decide),
    @byteAt_eq v 0 0 (by decide) (by decide)]
  rfl

theorem shifted_or {x : Int64} {digit : Nat} (isDigit : digit < 256)
    (fits : bits x * 256 + digit < 2 ^ 64) :
    (x <<< 8) ||| Int64.ofNat digit = Int64.ofNat (bits x * 256 + digit) := by
  have isShift : ((8 : Int64).toBitVec.smod 64).toNat = 8 := by decide
  have inside : bits x * 2 ^ 8 < 2 ^ 64 := by
    change bits x * 256 < 2 ^ 64
    exact Nat.lt_of_le_of_lt (Nat.le_add_right _ digit) fits
  have high : bits (x <<< 8) = bits x * 2 ^ 8 := bits_shiftLeft isShift inside
  have low : bits (Int64.ofNat digit) = digit := bits_ofNat (by omega)
  have isLow : bits (Int64.ofNat digit) < 2 ^ 8 := low.symm ▸ isDigit
  have isSum : bits ((x <<< 8) ||| Int64.ofNat digit) = bits x * 256 + digit := by
    have isOr := bits_or high isLow
    rw [low] at isOr
    exact isOr
  apply bits_inj.mp
  rw [isSum, bits_ofNat fits]

theorem foldl_shifted {digits : List Nat} (small : ∀ digit ∈ digits, digit < 256) {start : Int64}
    (fits : BigEndian.number (bits start) digits < 2 ^ 64) :
    (digits.map Int64.ofNat).foldl (fun v byte : Int64 => (v <<< 8) ||| byte) start =
      Int64.ofNat (BigEndian.number (bits start) digits) := by
  induction digits generalizing start with
  | nil => exact (bits_inj.mp (bits_ofNat start.toBitVec.isLt)).symm
  | cons digit digits ih =>
      rw [List.forall_mem_cons] at small
      have isNext : BigEndian.number (bits start) (digit :: digits) =
          BigEndian.number (bits start * 256 + digit) digits := rfl
      rw [isNext] at fits ⊢
      have step : bits start * 256 + digit < 2 ^ 64 :=
        Nat.lt_of_le_of_lt (BigEndian.le_number _ digits) fits
      have isBits := @bits_ofNat (bits start * 256 + digit) step
      have folded := @ih small.2 (Int64.ofNat (bits start * 256 + digit)) (by rw [isBits]; exact fits)
      rw [isBits] at folded
      rw [List.map_cons, List.foldl_cons, shifted_or small.1 step, folded]

theorem readNumber_bytes (data rest : List Int64) (start : Int64) (pos : Nat) (truncated : Bool) :
    readNumber data.length start ⟨data ++ rest, pos, truncated⟩ =
      (data.foldl (fun v byte : Int64 => (v <<< 8) ||| byte) start, ⟨rest, pos + data.length, truncated⟩) := by
  induction data generalizing start pos with
  | nil => rfl
  | cons b data ih =>
      rw [List.length_cons, List.cons_append, readNumber, readByte]
      dsimp only
      rw [ih, List.foldl_cons, Nat.add_assoc, Nat.add_comm 1]

theorem readNumber_spec {digits : List Nat} (small : ∀ digit ∈ digits, digit < 256) {start : Int64}
    (fits : BigEndian.number (bits start) digits < 2 ^ 64) (rest : List Int64) (pos : Nat)
    (truncated : Bool) :
    readNumber digits.length start ⟨digits.map Int64.ofNat ++ rest, pos, truncated⟩ =
      (Int64.ofNat (BigEndian.number (bits start) digits), ⟨rest, pos + digits.length, truncated⟩) := by
  have read := readNumber_bytes (digits.map Int64.ofNat) rest start pos truncated
  rwa [List.length_map, foldl_shifted small fits] at read

theorem readNumber_fourBytes (v : Int64) (rest : List Int64) (pos : Nat) (truncated : Bool) :
    readNumber 4 0 ⟨fourBytes v ++ rest, pos, truncated⟩ =
      (Int64.ofNat (bits v % 2 ^ 32), ⟨rest, pos + 4, truncated⟩) := by
  have isNumber : BigEndian.number (bits 0) (BigEndian.digits 4 (bits v)) = bits v % 2 ^ 32 := by
    have isZero : bits 0 = 0 := rfl
    rw [BigEndian.number_digits, isZero, Nat.zero_mul, Nat.zero_add]
    rfl
  have read := @readNumber_spec (BigEndian.digits 4 (bits v)) (fun _ => BigEndian.digits_lt) 0
    (by rw [isNumber]; omega) rest pos truncated
  rwa [isNumber, ← fourBytes_eq] at read

theorem readNumber_eightBytes (v : Int64) (rest : List Int64) (pos : Nat) (truncated : Bool) :
    readNumber 8 0 ⟨eightBytes v ++ rest, pos, truncated⟩ = (v, ⟨rest, pos + 8, truncated⟩) := by
  have below : bits v < 2 ^ 64 := v.toBitVec.isLt
  have isNumber : BigEndian.number (bits 0) (BigEndian.digits 8 (bits v)) = bits v := by
    have isZero : bits 0 = 0 := rfl
    rw [BigEndian.number_digits, isZero, Nat.zero_mul, Nat.zero_add]
    exact Nat.mod_eq_of_lt below
  have read := @readNumber_spec (BigEndian.digits 8 (bits v)) (fun _ => BigEndian.digits_lt) 0
    (by rw [isNumber]; exact below) rest pos truncated
  have isValue : Int64.ofNat (bits v) = v := bits_inj.mp (bits_ofNat below)
  rwa [isNumber, ← eightBytes_eq, isValue] at read

theorem bits_shifted {a b c d : Int64} (isA : bits a < 256) (isB : bits b < 256) (isC : bits c < 256)
    (isD : bits d < 256) :
    bits ((a <<< 24) ||| (b <<< 16) ||| (c <<< 8) ||| d) =
      ((bits a * 256 + bits b) * 256 + bits c) * 256 + bits d := by
  have first : bits (a <<< 24) = bits a * 2 ^ 24 := bits_shiftLeft (by decide) (by omega)
  have second : bits (b <<< 16) = bits b * 2 ^ 16 := bits_shiftLeft (by decide) (by omega)
  have third : bits (c <<< 8) = bits c * 2 ^ 8 := bits_shiftLeft (by decide) (by omega)
  have two : bits ((a <<< 24) ||| (b <<< 16)) = (bits a * 256 + bits b) * 2 ^ 16 := by
    rw [bits_or first (by rw [second]; omega), second]
    omega
  have three : bits ((a <<< 24) ||| (b <<< 16) ||| (c <<< 8)) =
      ((bits a * 256 + bits b) * 256 + bits c) * 2 ^ 8 := by
    rw [bits_or two (by rw [third]; omega), third]
    omega
  exact bits_or three isD

/-- The bytes of a number that are put together with shifts are the number below 2 ^ 32. -/
theorem shifted_fourBytes (v : Int64) :
    (byteAt v 24 <<< 24) ||| (byteAt v 16 <<< 16) ||| (byteAt v 8 <<< 8) ||| (v &&& 0xFF) =
      Int64.ofNat (bits v % 2 ^ 32) := by
  have a := @bits_byteAt v 24 24 (by decide) (by decide)
  have b := @bits_byteAt v 16 16 (by decide) (by decide)
  have c := @bits_byteAt v 8 8 (by decide) (by decide)
  have d := bits_and v
  have isNumber := @bits_shifted (byteAt v 24) (byteAt v 16) (byteAt v 8) (v &&& 0xFF) (by omega)
    (by omega) (by omega) (by omega)
  apply bits_inj.mp
  rw [isNumber, bits_ofNat (by omega), a, b, c, d]
  omega

theorem stringBytes_eq (s : Runtime.CString) : stringBytes s = s.map byteValue := by
  have masked : stringBytes s = ((List.range s.length).map (charCodeAt s)).map (· &&& 0xFF) := by
    rw [List.map_map]
    rfl
  rw [masked, map_charCodeAt, List.map_map]
  apply List.map_congr_left
  intro b _
  apply bits_inj.mp
  have isByte : b.toNat < 256 := b.toNat_lt
  rw [Function.comp_apply, bits_and, bits_byteValue, Nat.mod_eq_of_lt isByte]

theorem lowBytes_eq {data : List Int64} (areBytes : AreBytes data) : lowBytes data = data := by
  rw [lowBytes]
  conv_rhs => rw [← List.map_id data]
  apply List.map_congr_left
  intro b member
  apply bits_inj.mp
  rw [bits_and, Nat.mod_eq_of_lt (areBytes b member), id_eq]

theorem tinoxBytesToString_bytes {s : Runtime.CString} (noZero : 0 ∉ s) :
    tinoxBytesToString (s.map byteValue) = s := by
  have isText : (s.map byteValue).map lowByte = s := by
    rw [List.map_map]
    calc s.map (lowByte ∘ byteValue) = s.map id :=
          List.map_congr_left fun b _ => lowByte_byteValue b
      _ = s := List.map_id s
  rw [tinoxBytesToString, isText, cString_eq_iff.mpr noZero]

theorem httpConnReadN_bytes (conn : TinoxConn) {data : List Int64} (areBytes : AreBytes data)
    (fits : data.length < 2 ^ 63) {rest : List UInt8}
    (isStream : conn.incoming.flatten = data.map lowByte ++ rest) :
    ∃ later, httpConnReadN conn (Int64.ofNat data.length) = (data, { conn with incoming := later }) ∧
      later.flatten = rest := by
  have isBits : bits (Int64.ofNat data.length) = data.length := bits_ofNat (by omega)
  have isLength : bits (Int64.ofNat data.length) = (data.map lowByte).length := by
    rw [isBits, List.length_map]
  have isData : (data.map lowByte).map byteValue = data := by
    rw [List.map_map]
    calc data.map (byteValue ∘ lowByte) = data.map id :=
          List.map_congr_left fun b member => byteValue_lowByte (areBytes b member)
      _ = data := List.map_id data
  rcases httpConnReadN_spec conn isLength (by omega) isStream with ⟨later, isRead, isRest⟩
  rw [isData] at isRead
  exact ⟨later, isRead, isRest⟩

theorem areBytes_append {data more : List Int64} :
    AreBytes (data ++ more) ↔ AreBytes data ∧ AreBytes more :=
  List.forall_mem_append

theorem areBytes_digits (width n : Nat) : AreBytes ((BigEndian.digits width n).map Int64.ofNat) := by
  intro b member
  rcases List.mem_map.mp member with ⟨digit, isDigit, rfl⟩
  have small := BigEndian.digits_lt isDigit
  rw [bits_ofNat (by omega)]
  exact small

theorem areBytes_fourBytes (v : Int64) : AreBytes (fourBytes v) := by
  rw [fourBytes_eq]
  exact areBytes_digits 4 _

theorem areBytes_eightBytes (v : Int64) : AreBytes (eightBytes v) := by
  rw [eightBytes_eq]
  exact areBytes_digits 8 _

theorem areBytes_stringBytes (s : Runtime.CString) : AreBytes (stringBytes s) := by
  rw [stringBytes_eq]
  intro b member
  rcases List.mem_map.mp member with ⟨c, _, rfl⟩
  rw [bits_byteValue]
  exact c.toNat_lt

theorem areBytes_lowBytes (data : List Int64) : AreBytes (lowBytes data) := by
  intro b member
  rcases List.mem_map.mp member with ⟨c, _, rfl⟩
  rw [bits_and]
  exact Nat.mod_lt _ (by decide)

/-- A number from `low` on and below `high`. -/
def Between (low high : Int) (n : Int64) : Prop :=
  low ≤ n.toInt ∧ n.toInt < high

theorem toInt_eq (n : Int64) :
    n.toInt = if bits n < 2 ^ 63 then (bits n : Int) else (bits n : Int) - 2 ^ 64 := by
  have isCond : n.toInt = n.toBitVec.toInt := rfl
  rw [isCond, BitVec.toInt_eq_toNat_cond, bits]
  split <;> split <;> omega

theorem unsigned_eq {n : Int64} {width : Nat} (inRange : Between 0 width n) :
    Int64.ofNat (bits n % width) = n := by
  rcases inRange with ⟨low, high⟩
  have isInt := toInt_eq n
  have bound : bits n < 2 ^ 64 := n.toBitVec.isLt
  have below : bits n < width := by
    split at isInt <;> omega
  rw [Nat.mod_eq_of_lt below]
  exact bits_inj.mp (bits_ofNat (by omega))

theorem signed_eq {n : Int64} {half : Nat} (isPower : half = 2 ^ 7 ∨ half = 2 ^ 15 ∨ half = 2 ^ 31)
    (inRange : Between (-half) half n) :
    (if Int64.ofNat half ≤ Int64.ofNat (bits n % (2 * half)) then
      Int64.ofNat (bits n % (2 * half)) - Int64.ofNat (2 * half) else Int64.ofNat (bits n % (2 * half))) =
      n := by
  rcases inRange with ⟨low, high⟩
  have below : bits n < 2 ^ 64 := n.toBitVec.isLt
  have isInt := toInt_eq n
  have small : bits n % (2 * half) < 2 ^ 63 := by
    rcases isPower with rfl | rfl | rfl <;> omega
  have smallHalf : half < 2 ^ 63 := by
    rcases isPower with rfl | rfl | rfl <;> omega
  have isLess := ofNat_le smallHalf small
  by_cases negative : bits n < 2 ^ 63
  · rw [if_pos negative] at isInt
    have same : bits n % (2 * half) = bits n := Nat.mod_eq_of_lt (by omega)
    rw [same] at isLess ⊢
    rw [if_neg (fun isMore => absurd (isLess.mp isMore) (by omega))]
    exact bits_inj.mp (bits_ofNat below)
  · rw [if_neg negative] at isInt
    have isLow : ((bits n % (2 * half) : Nat) : Int) = n.toInt + 2 * half := by
      rcases isPower with rfl | rfl | rfl <;> omega
    rw [if_pos (isLess.mpr (by omega))]
    apply Int64.toInt_inj.mp
    have smallWhole : 2 * half < 2 ^ 63 := by
      rcases isPower with rfl | rfl | rfl <;> omega
    rw [Int64.toInt_sub, Int64.toInt_ofNat_of_lt small, Int64.toInt_ofNat_of_lt smallWhole, isLow]
    have isDifference : n.toInt + 2 * half - ((2 * half : Nat) : Int) = n.toInt := by omega
    rw [isDifference]
    exact Int64.toInt_bmod n

theorem signed32_eq {n : Int64} (inRange : Between (-2 ^ 31) (2 ^ 31) n) :
    (if 2147483648 ≤ Int64.ofNat (bits n % 2 ^ 32) then Int64.ofNat (bits n % 2 ^ 32) - 4294967296
      else Int64.ofNat (bits n % 2 ^ 32)) = n := by
  have isHalf : (2147483648 : Int64) = Int64.ofNat (2 ^ 31) := by decide
  have isWhole : (4294967296 : Int64) = Int64.ofNat (2 * 2 ^ 31) := by decide
  have isModulus : 2 ^ 32 = 2 * 2 ^ 31 := by decide
  rw [isHalf, isWhole, isModulus]
  exact signed_eq (Or.inr (Or.inr rfl)) (by push_cast; exact inRange)

theorem length_bits (n : Nat) : (Int64.ofNat (bits (Int64.ofNat n) % 2 ^ 32)).toInt.toNat = n % 2 ^ 32 := by
  have isBits : bits (Int64.ofNat n) = n % 2 ^ 64 := rfl
  have isLow : n % 2 ^ 64 % 2 ^ 32 = n % 2 ^ 32 := by omega
  rw [isBits, isLow, Int64.toInt_ofNat_of_lt (by omega), Int.toNat_natCast]

end Tinox.Amqp
