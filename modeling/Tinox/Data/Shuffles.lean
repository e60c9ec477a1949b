import Mathlib.Data.List.Basic

/-!
# Shuffles of a segment

Lists of which only a segment differs, where the elements of one are those of the other in another
order.  What holds of each element of the segment holds of each of them after a shuffle.
-/

namespace Shuffles

variable {α : Type} {lo hi lo' hi' : Nat} {xs ys zs : List α}

/-- From `lo` to in front of `hi` there are the same elements, elsewhere it is the same list. -/
structure Shuffled (lo hi : Nat) (xs ys : List α) : Prop where
  front : ys.take lo = xs.take lo
  back : ys.drop hi = xs.drop hi
  perm : ys.Perm xs

namespace Shuffled

theorem refl (lo hi : Nat) (xs : List α) : Shuffled lo hi xs xs :=
  ⟨rfl, rfl, List.Perm.refl xs⟩

theorem trans (first : Shuffled lo hi xs ys) (second : Shuffled lo hi ys zs) :
    Shuffled lo hi xs zs :=
  ⟨second.front.trans first.front, second.back.trans first.back, second.perm.trans first.perm⟩

/-- A shuffle of a segment is one of each larger segment. -/
theorem mono (shuffled : Shuffled lo hi xs ys) (lower : lo' ≤ lo) (upper : hi ≤ hi') :
    Shuffled lo' hi' xs ys := by
  refine ⟨?_, ?_, shuffled.perm⟩
  · have front := congrArg (List.take lo') shuffled.front
    rwa [List.take_take, List.take_take, Nat.min_eq_left lower] at front
  · have back := congrArg (List.drop (hi' - hi)) shuffled.back
    rwa [List.drop_drop, List.drop_drop, Nat.add_sub_cancel' upper] at back

theorem length_eq (shuffled : Shuffled lo hi xs ys) : ys.length = xs.length :=
  shuffled.perm.length_eq

theorem getElem?_front (shuffled : Shuffled lo hi xs ys) {k : Nat} (outside : k < lo) :
    ys[k]? = xs[k]? := by
  rw [← List.getElem?_take_of_lt outside, shuffled.front, List.getElem?_take_of_lt outside]

theorem getElem?_back (shuffled : Shuffled lo hi xs ys) {k : Nat} (outside : hi ≤ k) :
    ys[k]? = xs[k]? := by
  rw [← Nat.add_sub_cancel' outside, ← List.getElem?_drop, shuffled.back, List.getElem?_drop]

/-- The segment of a list. -/
theorem split (ordered : lo ≤ hi) (xs : List α) :
    xs.take lo ++ ((xs.take hi).drop lo ++ xs.drop hi) = xs := by
  rw [← List.append_assoc]
  have isFront : xs.take lo = (xs.take hi).take lo := by
    rw [List.take_take, Nat.min_eq_left ordered]
  rw [isFront, List.take_append_drop, List.take_append_drop]

theorem segment (shuffled : Shuffled lo hi xs ys) (ordered : lo ≤ hi) :
    ((ys.take hi).drop lo).Perm ((xs.take hi).drop lo) := by
  have perm := shuffled.perm
  rw [← split ordered xs, ← split ordered ys, shuffled.front, shuffled.back] at perm
  exact (List.perm_append_right_iff _).mp ((List.perm_append_left_iff _).mp perm)

/-- What holds of the elements of the segment still does. -/
theorem forall_segment (shuffled : Shuffled lo hi xs ys) {P : α → Prop}
    (holds : ∀ k, lo ≤ k → k < hi → ∀ x ∈ xs[k]?, P x) :
    ∀ k, lo ≤ k → k < hi → ∀ y ∈ ys[k]?, P y := by
  intro k lower upper y isAt
  have ordered : lo ≤ hi := by omega
  have member : y ∈ (ys.take hi).drop lo := by
    rw [List.mem_iff_getElem?]
    refine ⟨k - lo, ?_⟩
    rw [List.getElem?_drop, Nat.add_sub_cancel' lower, List.getElem?_take_of_lt upper]
    exact isAt
  rcases List.mem_iff_getElem?.mp ((shuffled.segment ordered).mem_iff.mp member) with ⟨n, isAt'⟩
  rw [List.getElem?_drop] at isAt'
  by_cases inside : lo + n < hi
  · rw [List.getElem?_take_of_lt inside] at isAt'
    exact holds (lo + n) (Nat.le_add_right lo n) inside y isAt'
  · rw [List.getElem?_eq_none] at isAt'
    · contradiction
    · rw [List.length_take]
      omega

/-- Two elements of the segment are exchanged. -/
theorem swap {i j : Nat} (first : lo ≤ i ∧ i < hi) (second : lo ≤ j ∧ j < hi)
    (iWithin : i < xs.length) (jWithin : j < xs.length) :
    Shuffled lo hi xs ((xs.set i xs[j]).set j xs[i]) := by
  refine ⟨?_, ?_, List.set_set_perm iWithin jWithin⟩
  · rw [List.take_set_of_le second.1, List.take_set_of_le first.1]
  · rw [List.drop_set_of_lt second.2, List.drop_set_of_lt first.2]

end Shuffled

end Shuffles
