import Mathlib.Data.List.Basic

/-!
# The first match

Two ways to go through a list of cases and stop at the first one that is
taken: by running a test for each case, which may also break down, and by a
specification of the cases.  They give the same result exactly when they agree
on every case that the specification reaches.
-/

namespace FirstMatch

universe u v w

variable {α : Type u} {β : Type v} {γ : Type w}

/-- What the test of one case does. -/
inductive Outcome (β : Type v) where
  | next
  | taken (result : β)
  | fault

/-- What a run through all cases does. -/
inductive Run (β : Type v) where
  | noCase
  | case (index : Nat) (result : β)
  | fault

/-- Test one case after the other, the first one having this index. -/
def run (test : Nat → α → Outcome β) : Nat → List α → Run β
  | _, [] => .noCase
  | index, a :: rest =>
      match test index a with
      | .next => run test (index + 1) rest
      | .taken result => .case index result
      | .fault => .fault

/-- The first case that the specification takes. -/
def first (spec : α → Option γ) : Nat → List α → Option (Nat × γ)
  | _, [] => none
  | index, a :: rest =>
      match spec a with
      | some result => some (index, result)
      | none => first spec (index + 1) rest

variable (Same : β → γ → Prop)

/-- A test does what the specification of its case says. -/
def Outcome.Agrees : Outcome β → Option γ → Prop
  | .next, none => True
  | .taken result, some expected => Same result expected
  | _, _ => False

/-- A run does what the specification of all cases says. -/
def Run.Agrees : Run β → Option (Nat × γ) → Prop
  | .noCase, none => True
  | .case index result, some (expected, bound) => index = expected ∧ Same result bound
  | _, _ => False

/-- A run takes no case before its first one. -/
theorem run_index {test : Nat → α → Outcome β} {start index : Nat} {cases : List α} {result : β}
    (taken : run test start cases = .case index result) : start ≤ index := by
  induction cases generalizing start with
  | nil => cases taken
  | cons a rest ih =>
      rw [run] at taken
      cases tested : test start a with
      | next =>
          rw [tested] at taken
          exact Nat.le_of_succ_le (ih taken)
      | taken found =>
          rw [tested] at taken
          injection taken with same
          exact Nat.le_of_eq same
      | fault =>
          rw [tested] at taken
          cases taken

/-- The specification takes no case before its first one. -/
theorem first_index {spec : α → Option γ} {start index : Nat} {cases : List α} {result : γ}
    (taken : first spec start cases = some (index, result)) : start ≤ index := by
  induction cases generalizing start with
  | nil => cases taken
  | cons a rest ih =>
      rw [first] at taken
      cases specified : spec a with
      | none =>
          rw [specified] at taken
          exact Nat.le_of_succ_le (ih taken)
      | some found =>
          rw [specified] at taken
          injection taken with pair
          injection pair with same
          exact Nat.le_of_eq same

/-- When the first case is disputed, so is the whole. -/
theorem agrees_head {test : Nat → α → Outcome β} {spec : α → Option γ} {start : Nat} {a : α}
    {rest : List α}
    (agrees : (run test start (a :: rest)).Agrees Same (first spec start (a :: rest))) :
    (test start a).Agrees Same (spec a) := by
  rw [run, first] at agrees
  cases tested : test start a with
  | next =>
      cases specified : spec a with
      | none => trivial
      | some expected =>
          rw [tested, specified] at agrees
          cases result : run test (start + 1) rest with
          | case index found =>
              simp only [result, Run.Agrees] at agrees
              exact absurd (run_index result) (by simp [agrees.1])
          | noCase | fault => simp only [result, Run.Agrees] at agrees
  | taken found =>
      cases specified : spec a with
      | none =>
          rw [tested, specified] at agrees
          cases result : first spec (start + 1) rest with
          | none => simp only [result, Run.Agrees] at agrees
          | some pair =>
              simp only [result, Run.Agrees] at agrees
              exact absurd (first_index result) (by simp [← agrees.1])
      | some expected =>
          rw [tested, specified] at agrees
          exact agrees.2
  | fault =>
      cases specified : spec a <;> simp only [tested, specified, Run.Agrees] at agrees

/-- A run does what the specification says exactly when it does so on every
case before which the specification takes none. -/
theorem run_agrees_iff (test : Nat → α → Outcome β) (spec : α → Option γ) (start : Nat)
    (cases : List α) :
    (run test start cases).Agrees Same (first spec start cases) ↔
      ∀ i a, cases[i]? = some a →
        (∀ j < i, ∀ earlier, cases[j]? = some earlier → spec earlier = none) →
        (test (start + i) a).Agrees Same (spec a) := by
  induction cases generalizing start with
  | nil => simp [run, first, Run.Agrees]
  | cons a rest ih =>
      constructor
      · intro agrees i case at_ untaken
        cases i with
        | zero =>
            injection at_ with same
            subst same
            exact agrees_head Same agrees
        | succ i =>
            have headUntaken : spec a = none := untaken 0 (Nat.succ_pos i) a rfl
            have headAgrees := agrees_head Same agrees
            rw [run, first, headUntaken] at agrees
            cases tested : test start a with
            | next =>
                rw [tested] at agrees
                have later := (ih (start + 1)).mp agrees i case at_ fun j below earlier atJ =>
                  untaken (j + 1) (Nat.succ_lt_succ below) earlier atJ
                rwa [Nat.add_assoc, Nat.add_comm 1 i] at later
            | taken found | fault => rw [tested, headUntaken] at headAgrees; exact headAgrees.elim
      · intro each
        have headAgrees := each 0 a rfl (by simp)
        rw [Nat.add_zero] at headAgrees
        rw [run, first]
        cases specified : spec a with
        | none =>
            cases tested : test start a with
            | next =>
                apply (ih (start + 1)).mpr
                intro i case at_ untaken
                have later := each (i + 1) case at_ (by
                  intro j below earlier atJ
                  cases j with
                  | zero =>
                      injection atJ with same
                      rwa [← same]
                  | succ j => exact untaken j (Nat.lt_of_succ_lt_succ below) earlier atJ)
                rwa [← Nat.add_assoc, Nat.add_right_comm] at later
            | taken found | fault => rw [tested, specified] at headAgrees; exact headAgrees.elim
        | some expected =>
            cases tested : test start a with
            | next | fault => rw [tested, specified] at headAgrees; exact headAgrees.elim
            | taken found =>
                rw [tested, specified] at headAgrees
                exact ⟨rfl, headAgrees⟩

end FirstMatch
