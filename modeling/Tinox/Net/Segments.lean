import Mathlib.Data.List.Basic

/-!
# Streams that come in pieces

The bytes of a stream arrive in pieces of any sizes.  A call that asks for some bytes
gets bytes of one piece, so readers that need a number of bytes call in a loop.
-/

namespace Segments

/-- The pieces that are still to come; empty ones mean nothing. -/
abbrev Stream := List (List UInt8)

/-- One call that asks for `size` bytes: it gets none only at the end of the stream. -/
def recv (size : Nat) : Stream → List UInt8 × Stream
  | [] => ([], [])
  | [] :: rest => recv size rest
  | (b :: bytes) :: rest => ((b :: bytes).take size, (b :: bytes).drop size :: rest)

theorem recv_append (size : Nat) (stream : Stream) :
    (recv size stream).1 ++ (recv size stream).2.flatten = stream.flatten := by
  fun_induction recv size stream with
  | case1 => rfl
  | case2 rest ih => exact ih
  | case3 rest b bytes =>
      rw [List.flatten_cons, List.flatten_cons, ← List.append_assoc, List.take_append_drop]

theorem length_recv_le (size : Nat) (stream : Stream) : (recv size stream).1.length ≤ size := by
  fun_induction recv size stream with
  | case1 => exact Nat.zero_le size
  | case2 rest ih => exact ih
  | case3 rest b bytes =>
      rw [List.length_take]
      exact Nat.min_le_left size _

theorem recv_pos {size : Nat} (positive : 0 < size) {stream : Stream} (some : stream.flatten ≠ []) :
    0 < (recv size stream).1.length := by
  fun_induction recv size stream with
  | case1 => exact absurd rfl some
  | case2 rest ih => exact ih some
  | case3 rest b bytes =>
      rw [List.length_take, List.length_cons]
      omega

theorem recv_within {size : Nat} (positive : 0 < size) {stream : Stream} {bytes rest : List UInt8}
    (isStream : stream.flatten = bytes ++ rest) (some : bytes ≠ []) (within : size ≤ bytes.length) :
    ∃ got more, bytes = got ++ more ∧ got ≠ [] ∧ (recv size stream).1 = got ∧
      (recv size stream).2.flatten = more ++ rest := by
  have isSplit := recv_append size stream
  have short := Nat.le_trans (length_recv_le size stream) within
  have notEnd : stream.flatten ≠ [] := by
    rw [isStream]
    exact fun empty => some (List.append_eq_nil_iff.mp empty).1
  have gotSome := List.ne_nil_of_length_pos (recv_pos positive notEnd)
  rw [isStream] at isSplit
  have isPrefix : (recv size stream).1 <+: bytes :=
    List.prefix_of_prefix_length_le ⟨_, isSplit⟩ ⟨rest, rfl⟩ short
  rcases isPrefix with ⟨more, isBytes⟩
  refine ⟨_, more, isBytes.symm, gotSome, rfl, ?_⟩
  rw [← isBytes, List.append_assoc] at isSplit
  exact List.append_cancel_left isSplit

end Segments
