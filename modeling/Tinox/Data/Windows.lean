import Mathlib.Data.List.Basic

/-!
# Windows of time

How many times of a list are in a window of a fixed width, and when no window has more than a
limit.
-/

namespace Windows

/-- The times from `start` on, before `start + width`. -/
def count (start width : Int) (times : List Int) : Nat :=
  times.countP fun time => start ≤ time ∧ time < start + width

/-- The times of the last `width` up to `now`. -/
def countBefore (now width : Int) (times : List Int) : Nat :=
  times.countP fun time => now - width < time ∧ time ≤ now

/-- A time that comes last, with room in the window before it, leaves no window too full. -/
theorem count_concat_le {limit : Nat} {now width : Int} {times : List Int}
    (areBefore : ∀ time ∈ times, time ≤ now) (hasRoom : countBefore now width times < limit)
    (limited : ∀ start, count start width times ≤ limit) (start : Int) :
    count start width (times ++ [now]) ≤ limit := by
  rw [count, List.countP_append, List.countP_singleton]
  split
  next isInside =>
    rw [decide_eq_true_eq] at isInside
    have fewer : count start width times ≤ countBefore now width times := by
      apply List.countP_mono_left
      intro time member isTime
      rw [decide_eq_true_eq] at isTime ⊢
      exact ⟨by omega, areBefore time member⟩
    exact Nat.lt_of_le_of_lt fewer hasRoom
  next => exact limited start

/-- Times that come in order are counted without looking at their end. -/
theorem countBefore_eq {now width : Int} {times : List Int} (areBefore : ∀ time ∈ times, time ≤ now) :
    countBefore now width times = times.countP fun time => now - width < time := by
  apply List.countP_congr
  intro time member
  rw [decide_eq_true_eq, decide_eq_true_eq]
  exact and_iff_left (areBefore time member)

end Windows
