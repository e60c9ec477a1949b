import Tinox.Amqp.Tables091
import Tinox.Amqp.Values10

/-!
# Cursors of the AMQP readers

Every read goes through `octet` or `readU8`, which look at the length of the bytes first.  What is
left to a cursor are its bytes, and one more read that runs past the end and is noticed.
-/

namespace Tinox.Amqp

open Tinox.Net Tinox.Runtime

/-- `AmqpReader091.new` and `Amqp10Reader.new`. -/
def Reader.new (bytes : List Int64) : Reader :=
  ⟨bytes, 0, false⟩

/-- What is left to a cursor. -/
def left (r : Reader) : Nat :=
  r.bytes.length + if r.truncated then 0 else 1

theorem left_new (bytes : List Int64) : left (.new bytes) = bytes.length + 1 :=
  rfl

theorem left_pos {r : Reader} (goesOn : ¬ r.truncated) : 0 < left r := by
  rw [left, if_neg goesOn]
  exact Nat.succ_pos _

/-- `octet` and `readU8` with the list and the position of the source: `none` when the index is
outside of the list. -/
def indexedByte (bytes : List Int64) (pos : Nat) (truncated : Bool) :
    Option (Int64 × Nat × Bool) :=
  if bytes.length ≤ pos then some (0, pos, true)
  else (bytes[pos]? : Option Int64).map fun v => (v, pos + 1, truncated)

/-- The bytes of a cursor are those of the list from its position on. -/
def Over (bytes : List Int64) (r : Reader) : Prop :=
  r.bytes = bytes.drop r.pos ∧ r.pos ≤ bytes.length

theorem Over.new (bytes : List Int64) : Over bytes (.new bytes) :=
  ⟨rfl, Nat.zero_le _⟩

theorem indexedByte_eq {bytes : List Int64} {r : Reader} (isOver : Over bytes r) :
    indexedByte bytes r.pos r.truncated =
      some ((readByte r).1, (readByte r).2.pos, (readByte r).2.truncated) := by
  rcases r with ⟨rest, pos, truncated⟩
  rcases isOver with ⟨isRest, inside⟩
  dsimp only at isRest inside
  subst isRest
  rw [indexedByte]
  split
  · rename_i atEnd
    have isEmpty : bytes.drop pos = [] := List.drop_eq_nil_of_le atEnd
    rw [isEmpty]
    rfl
  · rename_i before
    have within : pos < bytes.length := Nat.lt_of_not_le before
    rw [List.drop_eq_getElem_cons within, List.getElem?_eq_getElem within]
    rfl

theorem Over.readByte {bytes : List Int64} {r : Reader} (isOver : Over bytes r) :
    Over bytes (readByte r).2 := by
  rcases r with ⟨rest, pos, truncated⟩
  rcases isOver with ⟨isRest, inside⟩
  dsimp only at isRest inside
  subst isRest
  by_cases atEnd : bytes.length ≤ pos
  · have isEmpty : bytes.drop pos = [] := List.drop_eq_nil_of_le atEnd
    rw [isEmpty]
    exact ⟨isEmpty.symm, inside⟩
  · have within : pos < bytes.length := Nat.lt_of_not_le atEnd
    rw [List.drop_eq_getElem_cons within]
    exact ⟨rfl, within⟩

/-- A cursor after a number of reads. -/
def advance : Nat → Reader → Reader
  | 0, r => r
  | count + 1, r => advance count (readByte r).2

theorem advance_add (count more : Nat) (r : Reader) :
    advance (count + more) r = advance more (advance count r) := by
  induction count generalizing r with
  | zero => rw [Nat.zero_add, advance]
  | succ count ih => rw [Nat.add_right_comm, advance, ih, advance]

theorem Over.advance {bytes : List Int64} {r : Reader} (isOver : Over bytes r) (count : Nat) :
    Over bytes (advance count r) := by
  induction count generalizing r with
  | zero => exact isOver
  | succ count ih => exact ih isOver.readByte

/-- A read takes one of what is left, also the one that runs past the end. -/
theorem left_readByte (r : Reader) : left (readByte r).2 = left r - 1 := by
  rcases r with ⟨bytes, pos, truncated⟩
  cases bytes with
  | nil => cases truncated <;> rfl
  | cons v bytes => rw [left, left, readByte, List.length_cons, Nat.add_right_comm, Nat.add_sub_cancel]

theorem left_advance (count : Nat) (r : Reader) : left (advance count r) = left r - count := by
  induction count generalizing r with
  | zero => rfl
  | succ count ih => rw [advance, ih, left_readByte, Nat.sub_sub, Nat.add_comm]

theorem bytes_advance {r : Reader} (ended : r.truncated = true → r.bytes = []) (count : Nat) :
    (advance count r).truncated = true → (advance count r).bytes = [] := by
  induction count generalizing r with
  | zero => exact ended
  | succ count ih =>
      apply ih
      rcases r with ⟨bytes, pos, truncated⟩
      cases bytes with
      | nil => exact fun _ => rfl
      | cons v bytes => exact fun isSet => absurd (ended isSet) (List.cons_ne_nil v bytes)

theorem truncated_advance_iff {r : Reader} (inside : r.truncated = false) (count : Nat) :
    (advance count r).truncated = true ↔ r.bytes.length < count := by
  have isLeft := left_advance count r
  have isEnd := bytes_advance (fun isSet => nomatch inside.symm.trans isSet) count
  rw [left, left, inside, if_neg Bool.false_ne_true] at isLeft
  constructor
  · intro isSet
    rw [isSet, isEnd isSet, if_pos rfl, List.length_nil] at isLeft
    omega
  · intro past
    by_contra notSet
    rw [if_neg notSet] at isLeft
    omega

/-- As long as it is not, the bytes are those behind the ones that have been read. -/
theorem length_advance {r : Reader} (inside : r.truncated = false) {count : Nat}
    (notPast : (advance count r).truncated = false) :
    (advance count r).bytes.length + count = r.bytes.length := by
  have isLeft := left_advance count r
  have few := mt (truncated_advance_iff inside count).mpr (ne_true_of_eq_false notPast)
  rw [left, left, inside, notPast, if_neg Bool.false_ne_true] at isLeft
  omega

theorem readNumber_advance (width : Nat) (v : Int64) (r : Reader) :
    (readNumber width v r).2 = advance width r := by
  induction width generalizing v r with
  | zero => rfl
  | succ width ih =>
      rw [readNumber, advance]
      exact ih _ _

/-- Zeros that stand for bytes past the end are no part of a string. -/
theorem length_cString_zeros (text : List UInt8) (count : Nat) :
    (cString (text ++ List.replicate count 0)).length ≤ text.length := by
  induction text with
  | nil =>
      cases count with
      | zero | succ count => exact Nat.le_refl 0
  | cons b text ih =>
      rw [List.cons_append, cString, List.takeWhile_cons]
      split
      · exact Nat.succ_le_succ ih
      · exact Nat.zero_le _

namespace AmqpReader091

theorem octets_advance (n : Nat) (r : Reader) : (octets n r).2 = advance n r := by
  induction n generalizing r with
  | zero => rfl
  | succ n ih =>
      rw [octets, advance]
      exact ih _

theorem octets_eq (n : Nat) (r : Reader) :
    (octets n r).1 = r.bytes.take n ++ List.replicate (n - r.bytes.length) 0 := by
  induction n generalizing r with
  | zero => rw [octets, List.take_zero, Nat.zero_sub, List.replicate_zero, List.append_nil]
  | succ n ih =>
      rcases r with ⟨bytes, pos, truncated⟩
      rw [octets]
      dsimp only
      rw [ih]
      cases bytes with
      | nil =>
          have isEmpty : (octet ⟨[], pos, truncated⟩) = (0, ⟨[], pos, true⟩) := rfl
          rw [isEmpty, List.take_nil, List.take_nil, List.nil_append, List.nil_append, List.length_nil,
            Nat.sub_zero, Nat.sub_zero, List.replicate_succ]
      | cons v bytes =>
          have isByte : (octet ⟨v :: bytes, pos, truncated⟩) = (v, ⟨bytes, pos + 1, truncated⟩) := rfl
          rw [isByte, List.take_succ_cons, List.length_cons, Nat.add_sub_add_right, List.cons_append]

theorem rawStr_advance (n : Int64) (r : Reader) : (rawStr n r).2 = advance n.toInt.toNat r :=
  octets_advance _ r

theorem length_rawStr_le (n : Int64) (r : Reader) :
    (rawStr n r).1.length + left (rawStr n r).2 ≤ left r := by
  have isShort := length_cString_zeros ((r.bytes.take n.toInt.toNat).map lowByte)
    (n.toInt.toNat - r.bytes.length)
  have isString : (rawStr n r).1 = cString ((r.bytes.take n.toInt.toNat).map lowByte ++
      List.replicate (n.toInt.toNat - r.bytes.length) 0) := by
    rw [rawStr, tinoxBytesToString, octets_eq, List.map_append, List.map_replicate]
    rfl
  have isRest := left_advance n.toInt.toNat r
  have isWhole : r.bytes.length ≤ left r := Nat.le_add_right _ _
  rw [List.length_map, List.length_take] at isShort
  rw [isString, rawStr_advance, isRest]
  omega

end AmqpReader091

namespace Amqp10Reader

theorem readBytesLoop_bound (n : Nat) (r : Reader) :
    ∃ count, (readBytesLoop n r).2 = advance count r ∧
      (readBytesLoop n r).1.length + left (readBytesLoop n r).2 ≤ left r ∧
      (0 < n → ¬ r.truncated → 0 < count) := by
  induction n generalizing r with
  | zero => exact ⟨0, rfl, Nat.le_of_eq (Nat.zero_add _), fun positive => absurd positive (Nat.lt_irrefl 0)⟩
  | succ n ih =>
      rw [readBytesLoop]
      split
      · rename_i truncated
        exact ⟨0, rfl, Nat.le_of_eq (Nat.zero_add _), fun _ goesOn => absurd truncated goesOn⟩
      · rename_i goesOn
        rcases ih (readU8 r).2 with ⟨count, isRest, isShort, _⟩
        have isLeft : left (readU8 r).2 = left r - 1 := left_readByte r
        have positive := left_pos goesOn
        refine ⟨count + 1, isRest, ?_, fun _ _ => Nat.succ_pos count⟩
        dsimp only
        rw [List.length_cons]
        omega

end Amqp10Reader

end Tinox.Amqp
