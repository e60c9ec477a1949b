import Mathlib.Data.List.Basic

/-!
# Traces

A trace lists the events of a run in their order.  A rule about an event and what stands
before it is kept by a run when each new event keeps it.
-/

namespace Traces

variable {Event : Type}

/-- Every event of a trace obeys a rule about what stands before it. -/
def EachAfter (rule : List Event → Event → Prop) (trace : List Event) : Prop :=
  ∀ before event after, trace = before ++ event :: after → rule before event

theorem eachAfter_nil (rule : List Event → Event → Prop) : EachAfter rule [] := by
  intro before event after isTrace
  cases before <;> cases isTrace

theorem eachAfter_concat {rule : List Event → Event → Prop} {trace : List Event} {event : Event} :
    EachAfter rule (trace ++ [event]) ↔ EachAfter rule trace ∧ rule trace event := by
  constructor
  · intro each
    constructor
    · intro before other after isTrace
      apply each before other (after ++ [event])
      rw [isTrace, List.append_assoc, List.cons_append]
    · exact each trace event [] rfl
  · rintro ⟨each, new⟩ before other after isTrace
    rcases List.eq_nil_or_concat after with rfl | ⟨after, last, rfl⟩
    · rcases List.append_inj' isTrace rfl with ⟨rfl, isLast⟩
      cases isLast
      exact new
    · apply each before other after
      rw [List.concat_eq_append, ← List.cons_append, ← List.append_assoc] at isTrace
      exact (List.append_inj' isTrace rfl).1

theorem eachAfter_append {rule : List Event → Event → Prop} {trace more : List Event}
    (each : EachAfter rule trace) (always : ∀ event ∈ more, ∀ before, rule before event) :
    EachAfter rule (trace ++ more) := by
  induction more generalizing trace with
  | nil => rwa [List.append_nil]
  | cons event more ih =>
      rw [List.forall_mem_cons] at always
      rw [List.append_cons]
      exact ih (eachAfter_concat.mpr ⟨each, always.1 trace⟩) always.2

theorem EachAfter.of_append {rule : List Event → Event → Prop} {trace more : List Event}
    (each : EachAfter rule (trace ++ more)) : EachAfter rule trace := by
  intro before event after isTrace
  apply each before event (after ++ more)
  rw [isTrace, List.append_assoc, List.cons_append]

end Traces
