import Mathlib.Algebra.Group.Int.Defs
import Mathlib.Algebra.Group.Nat.Defs
import Tinox.Net.Segments

/-!
# Connections

The binary primitives of connections: reading a number of bytes and writing bytes.
A byte is the value of one 64-bit slot of an array.
-/

namespace Tinox.Net

open Segments

/-- `TinoxConn`: what is still to be received, what has been sent, and whether compression
was negotiated. -/
structure TinoxConn where
  incoming : Stream
  outgoing : List UInt8
  wsCompressed : Bool

/-- `(int64_t)buf[i]`. -/
def byteValue (b : UInt8) : Int64 :=
  Int64.ofNat b.toNat

/-- `(unsigned char)(x & 0xff)`. -/
def lowByte (x : Int64) : UInt8 :=
  (x &&& 0xff).toUInt64.toUInt8

/-- The loop of `httpConnReadN`, which asks for at most 4096 bytes at once. -/
def readLoop (remaining : Nat) (stream : Stream) : List UInt8 × Stream :=
  if remaining = 0 then ([], stream)
  else
    let got := recv (min remaining 4096) stream
    if 0 < got.1.length then
      let rest := readLoop (remaining - got.1.length) got.2
      (got.1 ++ rest.1, rest.2)
    else ([], got.2)
termination_by remaining
decreasing_by
  rename_i some positive
  exact Nat.sub_lt (Nat.pos_of_ne_zero some) positive

/-- `httpConnReadN`. -/
def httpConnReadN (conn : TinoxConn) (n : Int64) : List Int64 × TinoxConn :=
  if n ≤ 0 then ([], conn)
  else
    let read := readLoop n.toInt.toNat conn.incoming
    (read.1.map byteValue, { conn with incoming := read.2 })

/-- `httpConnWriteBytes`. -/
def httpConnWriteBytes (conn : TinoxConn) (arr : List Int64) : TinoxConn :=
  { conn with outgoing := conn.outgoing ++ arr.map lowByte }

/-- The bits of an integer as a natural number. -/
def bits (x : Int64) : Nat :=
  x.toBitVec.toNat

theorem bits_inj {x y : Int64} : bits x = bits y ↔ x = y := by
  rw [bits, bits, BitVec.toNat_inj, Int64.toBitVec_inj]

theorem bits_ofNat {n : Nat} (small : n < 2 ^ 64) : bits (Int64.ofNat n) = n :=
  Nat.mod_eq_of_lt small

theorem bits_byteValue (b : UInt8) : bits (byteValue b) = b.toNat := by
  have small : b.toNat < 256 := b.toNat_lt
  exact bits_ofNat (by omega)

theorem bits_and (x : Int64) : bits (x &&& 0xff) = bits x % 256 := by
  rw [bits, Int64.toBitVec_and, BitVec.toNat_and]
  exact Nat.and_two_pow_sub_one_eq_mod _ 8

theorem toNat_lowByte (x : Int64) : (lowByte x).toNat = bits x % 256 := by
  have isByte : (lowByte x).toNat = bits (x &&& 0xff) % 256 := rfl
  rw [isByte, bits_and, Nat.mod_mod]

theorem lowByte_byteValue (b : UInt8) : lowByte (byteValue b) = b := by
  have small : b.toNat < 256 := b.toNat_lt
  apply UInt8.toNat_inj.mp
  rw [toNat_lowByte, bits_byteValue, Nat.mod_eq_of_lt small]

theorem bits_shiftRight {x s : Int64} {k : Nat} (notNegative : bits x < 2 ^ 63)
    (isShift : (s.toBitVec.smod 64).toNat = k) : bits (x >>> s) = bits x / 2 ^ k := by
  have noSign : x.toBitVec.msb = false := by
    rw [BitVec.msb_eq_decide]
    rw [bits] at notNegative
    exact decide_eq_false (by omega)
  rw [bits, Int64.toBitVec_shiftRight, BitVec.sshiftRight', isShift,
    BitVec.sshiftRight_eq_of_msb_false noSign, BitVec.toNat_ushiftRight, Nat.shiftRight_eq_div_pow]
  rfl

theorem bits_shiftLeft_or {x : Int64} (b : UInt8) (small : bits x < 2 ^ 55) :
    bits ((x <<< 8) ||| byteValue b) = bits x * 256 + b.toNat := by
  have isByte : b.toNat < 2 ^ 8 := b.toNat_lt
  have isShift : ((8 : Int64).toBitVec.smod 64).toNat = 8 := by decide
  rw [bits, Int64.toBitVec_or, BitVec.toNat_or, Int64.toBitVec_shiftLeft, BitVec.shiftLeft_eq',
    BitVec.toNat_shiftLeft, isShift]
  change (bits x <<< 8) % 2 ^ 64 ||| bits (byteValue b) = _
  rw [bits_byteValue, Nat.mod_eq_of_lt (by rw [Nat.shiftLeft_eq]; omega),
    ← Nat.shiftLeft_add_eq_or_of_lt isByte, Nat.shiftLeft_eq]

theorem bits_of_nonneg {x : Int64} (notNegative : 0 ≤ x) : (bits x : Int) = x.toInt := by
  have low : 0 ≤ x.toInt := Int64.le_iff_toInt_le.mp notNegative
  have below := x.toBitVec.isLt
  have isCond : x.toInt = x.toBitVec.toInt := rfl
  rw [BitVec.toInt_eq_toNat_cond] at isCond
  rw [bits]
  split at isCond <;> omega

theorem lowByte_and (x : Int64) : lowByte (x &&& 0xff) = lowByte x := by
  apply UInt8.toNat_inj.mp
  rw [toNat_lowByte, toNat_lowByte, bits_and, Nat.mod_mod]

theorem byteValue_lowByte {x : Int64} (isByte : bits x < 256) : byteValue (lowByte x) = x := by
  apply bits_inj.mp
  rw [bits_byteValue, toNat_lowByte, Nat.mod_eq_of_lt isByte]

theorem shifted_byte {n : Nat} (small : n < 2 ^ 63) {s : Int64} {k : Nat}
    (isShift : (s.toBitVec.smod 64).toNat = k) :
    (lowByte ((Int64.ofNat n >>> s) &&& 0xff)).toNat = n / 2 ^ k % 256 := by
  have isBits := bits_ofNat (n := n) (by omega)
  rw [lowByte_and, toNat_lowByte, bits_shiftRight (by rw [isBits]; exact small) isShift, isBits]

theorem ofNat_lt {m n : Nat} (small : m < 2 ^ 63) (small' : n < 2 ^ 63) :
    Int64.ofNat m < Int64.ofNat n ↔ m < n := by
  rw [Int64.lt_iff_toInt_lt, Int64.toInt_ofNat_of_lt small, Int64.toInt_ofNat_of_lt small']
  exact Int.ofNat_lt

theorem ofNat_le {m n : Nat} (small : m < 2 ^ 63) (small' : n < 2 ^ 63) :
    Int64.ofNat m ≤ Int64.ofNat n ↔ m ≤ n := by
  rw [Int64.le_iff_toInt_le, Int64.toInt_ofNat_of_lt small, Int64.toInt_ofNat_of_lt small']
  exact Int.ofNat_le

theorem bits_shiftLeft {x s : Int64} {k : Nat} (isShift : (s.toBitVec.smod 64).toNat = k)
    (small : bits x * 2 ^ k < 2 ^ 64) : bits (x <<< s) = bits x * 2 ^ k := by
  rw [bits, Int64.toBitVec_shiftLeft, BitVec.shiftLeft_eq', BitVec.toNat_shiftLeft, isShift,
    Nat.shiftLeft_eq]
  exact Nat.mod_eq_of_lt small

theorem bits_or {x y : Int64} {n k : Nat} (high : bits x = n * 2 ^ k) (low : bits y < 2 ^ k) :
    bits (x ||| y) = n * 2 ^ k + bits y := by
  have isOr : bits (x ||| y) = bits x ||| bits y := by
    rw [bits, Int64.toBitVec_or, BitVec.toNat_or]
    rfl
  rw [isOr, high, Nat.mul_comm, ← Nat.two_pow_add_eq_or_of_lt low]

theorem readLoop_spec (bytes : List UInt8) {rest : List UInt8} {stream : Stream}
    (isStream : stream.flatten = bytes ++ rest) :
    ∃ later, readLoop bytes.length stream = (bytes, later) ∧ later.flatten = rest := by
  generalize isLength : bytes.length = remaining
  induction remaining using Nat.strongRecOn generalizing bytes stream with
  | _ remaining ih =>
      rw [readLoop]
      by_cases none : remaining = 0
      · rw [if_pos none]
        have isEmpty : bytes = [] := List.length_eq_zero_iff.mp (isLength.trans none)
        subst isEmpty
        exact ⟨stream, rfl, isStream⟩
      · have some : bytes ≠ [] := by
          rintro rfl
          exact none isLength.symm
        have within : min remaining 4096 ≤ bytes.length := isLength ▸ Nat.min_le_left _ _
        rcases recv_within (by omega) isStream some within with
          ⟨got, more, rfl, gotSome, isGot, isMore⟩
        have positive := List.length_pos_of_ne_nil gotSome
        rw [List.length_append] at isLength
        rcases ih (remaining - got.length) (by omega) more isMore (by omega) with
          ⟨later, isRead, isLater⟩
        refine ⟨later, ?_, isLater⟩
        rw [if_neg none]
        simp only [isGot, if_pos positive, isRead]

theorem toInt_of_small {x : Int64} (small : bits x < 2 ^ 63) : x.toInt = bits x := by
  have isCond : x.toInt = x.toBitVec.toInt := rfl
  rw [bits] at small ⊢
  rw [isCond, BitVec.toInt_eq_toNat_cond, if_pos (by omega)]

theorem httpConnReadN_spec (conn : TinoxConn) {n : Int64} {bytes rest : List UInt8}
    (isLength : bits n = bytes.length) (small : bits n < 2 ^ 63)
    (isStream : conn.incoming.flatten = bytes ++ rest) :
    ∃ later, httpConnReadN conn n = (bytes.map byteValue, { conn with incoming := later }) ∧
      later.flatten = rest := by
  have isInt := toInt_of_small small
  rcases readLoop_spec bytes isStream with ⟨later, isRead, isLater⟩
  by_cases none : n ≤ 0
  · have isZero : n.toInt ≤ 0 := Int64.le_iff_toInt_le.mp none
    have isEmpty : bytes = [] := List.length_eq_zero_iff.mp (by omega)
    subst isEmpty
    refine ⟨conn.incoming, ?_, isStream⟩
    rw [httpConnReadN, if_pos none]
    rfl
  · refine ⟨later, ?_, isLater⟩
    have isNat : n.toInt.toNat = bytes.length := by omega
    rw [httpConnReadN, if_neg none, isNat, isRead]

theorem readLoop_append (remaining : Nat) (stream : Stream) :
    (readLoop remaining stream).1 ++ (readLoop remaining stream).2.flatten = stream.flatten := by
  induction remaining using Nat.strongRecOn generalizing stream with
  | _ remaining ih =>
      have isSplit := recv_append (min remaining 4096) stream
      rw [readLoop]
      split
      · rfl
      next some =>
        dsimp only
        split
        next positive =>
          have less : remaining - (recv (min remaining 4096) stream).1.length < remaining :=
            Nat.sub_lt (Nat.pos_of_ne_zero some) positive
          rw [List.append_assoc, ih _ less, isSplit]
        next none =>
          rw [List.length_eq_zero_iff.mp (Nat.eq_zero_of_not_pos none), List.nil_append] at isSplit
          exact isSplit

theorem length_httpConnReadN (conn : TinoxConn) (n : Int64) :
    (httpConnReadN conn n).1.length + (httpConnReadN conn n).2.incoming.flatten.length =
      conn.incoming.flatten.length := by
  rw [httpConnReadN]
  split
  · exact Nat.zero_add _
  · rw [List.length_map, ← List.length_append, readLoop_append]

end Tinox.Net
