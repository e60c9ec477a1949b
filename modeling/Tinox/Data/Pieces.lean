import Mathlib.Data.List.Basic

/-!
# Pieces of a list

A list is cut into pieces of a size; the last one may be shorter, and none is empty.
-/

namespace Pieces

variable {α : Type*} {size : Nat}

/-- The pieces of a list from an offset on. -/
def cut (positive : 0 < size) (data : List α) (offset : Nat) : List (List α) :=
  if offset < data.length then
    (data.drop offset).take size :: cut positive data (offset + size)
  else []
termination_by data.length - offset

theorem cut_of_le (positive : 0 < size) {data : List α} {offset : Nat} (atEnd : data.length ≤ offset) :
    cut positive data offset = [] := by
  rw [cut, if_neg (Nat.not_lt.mpr atEnd)]

theorem cut_of_lt (positive : 0 < size) {data : List α} {offset : Nat} (inside : offset < data.length) :
    cut positive data offset = (data.drop offset).take size :: cut positive data (offset + size) := by
  rw [cut, if_pos inside]

/-- The pieces together are the list. -/
theorem flatten_cut (positive : 0 < size) (data : List α) (offset : Nat) :
    (cut positive data offset).flatten = data.drop offset := by
  fun_induction cut positive data offset with
  | case1 offset inside ih => rw [List.flatten_cons, ih, ← List.drop_drop, List.take_append_drop]
  | case2 offset atEnd => rw [List.flatten_nil, List.drop_eq_nil_of_le (Nat.not_lt.mp atEnd)]

/-- What a piece holds is in the list. -/
theorem mem_of_mem_cut (positive : 0 < size) {data piece : List α} {offset : Nat}
    (isPiece : piece ∈ cut positive data offset) {a : α} (member : a ∈ piece) : a ∈ data := by
  have inRest : a ∈ data.drop offset := by
    rw [← flatten_cut positive data offset]
    exact List.mem_flatten_of_mem isPiece member
  exact List.mem_of_mem_drop inRest

/-- No piece is longer than the size. -/
theorem length_le_of_mem_cut (positive : 0 < size) {data piece : List α} {offset : Nat}
    (member : piece ∈ cut positive data offset) : piece.length ≤ size := by
  fun_induction cut positive data offset with
  | case1 offset inside ih =>
      rcases List.mem_cons.mp member with rfl | inRest
      · exact List.length_take_le size _
      · exact ih inRest
  | case2 => exact nomatch member

/-- No piece is empty. -/
theorem ne_nil_of_mem_cut (positive : 0 < size) {data piece : List α} {offset : Nat}
    (member : piece ∈ cut positive data offset) : piece ≠ [] := by
  fun_induction cut positive data offset with
  | case1 offset inside ih =>
      rcases List.mem_cons.mp member with rfl | inRest
      · rw [← List.length_pos_iff, List.length_take, List.length_drop]
        omega
      · exact ih inRest
  | case2 => exact nomatch member

end Pieces
