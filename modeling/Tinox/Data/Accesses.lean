import Mathlib.Algebra.Group.Nat.Defs
import Mathlib.Data.List.Basic

/-!
# Checked accesses

A text in memory ends with a NUL, and code walks over it with a cursor.  To read behind the NUL is a
fault, and so is to write outside a buffer.  The elements of a list are read by an index of 64 bits.
-/

namespace Accesses

/-- What may go wrong in a run. -/
inductive Fault where
  /-- A read behind the end of a text, or outside a table. -/
  | read
  /-- A write outside a buffer. -/
  | write
  /-- A loop that has not ended after the steps that it was given. -/
  | unfinished
  deriving DecidableEq, Repr

/-- The result of a run, or the fault that ends it. -/
abbrev Outcome := Except Fault

theorem ok_bind {α β : Type} (a : α) (next : α → Outcome β) : (Except.ok a >>= next) = next a :=
  rfl

/-- A write to one place of a buffer. -/
def checkWrite (size index : Nat) : Outcome Unit :=
  if index < size then .ok () else .error .write

/-- A copy to the places of a buffer from `index` on. -/
def checkCopy (size index count : Nat) : Outcome Unit :=
  if index + count ≤ size then .ok () else .error .write

theorem checkWrite_of_lt {size index : Nat} (inside : index < size) :
    checkWrite size index = .ok () :=
  if_pos inside

theorem checkCopy_of_le {size index count : Nat} (inside : index + count ≤ size) :
    checkCopy size index count = .ok () :=
  if_pos inside

/-- `*p`, for a cursor that stands at a place of the text or at its NUL. -/
def fetch (text : List UInt8) (p : Nat) : Outcome UInt8 :=
  if p ≤ text.length then .ok (text.getD p 0) else .error .read

/-- The cursor stands before the rest of a text. -/
structure At (text : List UInt8) (p : Nat) (rest : List UInt8) : Prop where
  inside : p ≤ text.length
  drop_eq : text.drop p = rest

namespace At

variable {text rest : List UInt8} {p : Nat} {b : UInt8}

theorem start (text : List UInt8) : At text 0 text :=
  ⟨Nat.zero_le _, List.drop_zero⟩

theorem fetch (at_ : At text p rest) : fetch text p = .ok (rest.headD 0) := by
  rw [Accesses.fetch, if_pos at_.inside, ← at_.drop_eq, List.headD_eq_head?_getD, List.head?_drop,
    List.getD_eq_getElem?_getD]

theorem next (at_ : At text p (b :: rest)) : At text (p + 1) rest := by
  have length := congrArg List.length at_.drop_eq
  rw [List.length_drop, List.length_cons] at length
  refine ⟨by omega, ?_⟩
  rw [← List.tail_drop, at_.drop_eq, List.tail_cons]

theorem length_eq (at_ : At text p rest) : p + rest.length = text.length := by
  rw [← at_.drop_eq, List.length_drop]
  exact Nat.add_sub_cancel' at_.inside

theorem le_length (at_ : At text p rest) : rest.length ≤ text.length :=
  at_.length_eq ▸ Nat.le_add_left _ _

/-- A cursor stands further on exactly if less of the text is left. -/
theorem lt_iff (at_ : At text p rest) {p' : Nat} {rest' : List UInt8} (other : At text p' rest') :
    p < p' ↔ rest'.length < rest.length := by
  have here := at_.length_eq
  have there := other.length_eq
  omega

theorem drop (at_ : At text p rest) {count : Nat} (inside : count ≤ rest.length) :
    At text (p + count) (rest.drop count) := by
  have length := at_.length_eq
  refine ⟨by omega, ?_⟩
  rw [← at_.drop_eq, List.drop_drop]

theorem notMem (at_ : At text p rest) (nulFree : b ∉ text) : b ∉ rest :=
  fun member => nulFree (List.mem_of_mem_drop (at_.drop_eq ▸ member))

end At

section Lists

variable {α : Type} {xs : List α}

/-- The length of a list. -/
def len (xs : List α) : Int64 :=
  Int64.ofNat xs.length

/-- `xs[i]`. -/
def elementAt (xs : List α) (i : Int64) : Outcome α :=
  if 0 ≤ i then
    match xs[i.toInt.toNat]? with
    | some x => .ok x
    | none => .error .read
  else .error .read

theorem elementAt_ofNat (inMemory : xs.length < 2 ^ 63) {k : Nat} (inside : k < xs.length) :
    elementAt xs (Int64.ofNat k) = .ok xs[k] := by
  have small := Nat.lt_trans inside inMemory
  rw [elementAt, if_pos (Int64.zero_le_ofNat_of_lt small), Int64.toInt_ofNat_of_lt small,
    Int.toNat_natCast, List.getElem?_eq_getElem inside]

theorem lt_len (inMemory : xs.length < 2 ^ 63) {k : Nat} (small : k < 2 ^ 63) :
    Int64.ofNat k < len xs ↔ k < xs.length :=
  Int64.ofNat_lt_iff_lt small inMemory

theorem len_le (inMemory : xs.length < 2 ^ 63) {k : Nat} (small : k < 2 ^ 63) :
    len xs ≤ Int64.ofNat k ↔ xs.length ≤ k :=
  Int64.ofNat_le_iff_le inMemory small

end Lists

/-- `while (test(*p)) p++`. -/
def skipWhile (text : List UInt8) (test : UInt8 → Bool) : Nat → Nat → Outcome Nat
  | 0, _ => .error .unfinished
  | steps + 1, p => do
      let b ← fetch text p
      if test b then skipWhile text test steps (p + 1) else pure p

/-- A loop that does not go on at the NUL ends before it. -/
theorem skipWhile_spec {text rest : List UInt8} {test : UInt8 → Bool} (stops : test 0 = false)
    {steps p : Nat} (at_ : At text p rest) (enough : rest.length < steps) :
    ∃ p', skipWhile text test steps p = .ok p' ∧ At text p' (rest.dropWhile test) := by
  induction steps generalizing p rest with
  | zero => contradiction
  | succ steps ih =>
      rw [skipWhile, at_.fetch, ok_bind]
      cases rest with
      | nil =>
          rw [List.headD_nil, stops]
          exact ⟨p, rfl, at_⟩
      | cons b rest =>
          rw [List.headD_cons, List.dropWhile_cons]
          cases goesOn : test b with
          | false => exact ⟨p, rfl, at_⟩
          | true => exact ih at_.next (Nat.lt_of_succ_lt_succ enough)

end Accesses
