import Tinox.Parser.Declarations

/-!
# Runs of parsers

How the combinators of `Parse` run on a given state.  A loop is described by
its rounds: `LoopsTo step a s outcome` says that the rounds that start with `a`
in `s` end with `outcome`, every round but the last one consuming a token.
-/

namespace Tinox.Parser

open Tinox.Syntax

variable {s : State}

namespace Parse

variable {α β : Type}

variable {p : Parse α} {f : α → Parse β} {s' : State} {b : β}

@[simp] theorem bind_apply (p : Parse α) (f : α → Parse β) (s : State) :
    (p >>= f) s =
      match p s with
      | none => none
      | some (.error e, s') => some (.error e, s')
      | some (.ok a, s') => f a s' :=
  rfl

theorem bind_of_ok {a : α} (run : p s = some (.ok a, s')) : (p >>= f) s = f a s' := by
  rw [bind_apply, run]

theorem bind_of_error {e : ParseError} (run : p s = some (.error e, s')) :
    (p >>= f) s = some (.error e, s') := by
  rw [bind_apply, run]

theorem bind_bind {γ : Type} (p : Parse α) (f : α → Parse β) (g : β → Parse γ) :
    p >>= f >>= g = p >>= fun a => f a >>= g := by
  funext s
  simp only [bind_apply]
  rcases p s with _ | ⟨_ | a, s'⟩ <;> rfl

theorem pure_bind' (a : α) (f : α → Parse β) : pure a >>= f = f a :=
  rfl

theorem ite_bind (c : Prop) [Decidable c] (p q : Parse α) (f : α → Parse β) :
    (if c then p else q) >>= f = if c then p >>= f else q >>= f := by
  split <;> rfl

theorem ok_of_bind (run : (p >>= f) s = some (.ok b, s')) :
    ∃ a middle, p s = some (.ok a, middle) ∧ f a middle = some (.ok b, s') := by
  rw [bind_apply] at run
  cases first : p s with
  | none => simp [first] at run
  | some outcome =>
      rcases outcome with ⟨result, middle⟩
      cases result with
      | error e => simp [first] at run
      | ok a => exact ⟨a, middle, rfl, by simpa [first] using run⟩

theorem ok_of_map {f : α → β} (run : (p >>= fun a => pure (f a)) s = some (.ok b, s')) :
    ∃ a, p s = some (.ok a, s') ∧ b = f a := by
  rcases ok_of_bind run with ⟨a, middle, first, last⟩
  cases last
  exact ⟨a, first, rfl⟩

@[simp] theorem pure_apply (a : α) (s : State) :
    (pure a : Parse α) s = some (.ok a, s) :=
  rfl

@[simp] theorem fail_apply (e : ParseError) (s : State) :
    (fail e : Parse α) s = some (.error e, s) :=
  rfl

@[simp] theorem error_apply (text : String) (s : State) :
    (error text : Parse α) s = some (.error (.message text), s) :=
  rfl

@[simp] theorem get_apply (f : State → α) (s : State) :
    get f s = some (.ok (f s), s) :=
  rfl

@[simp] theorem modify_apply (f : State → State) (s : State) :
    modify f s = some (.ok (), f s) :=
  rfl

@[simp] theorem ite_apply (c : Prop) [Decidable c] (p q : Parse α) (s : State) :
    (if c then p else q) s = if c then p s else q s := by
  split <;> rfl

/-- The rounds of a loop from a state on, by their outcome. -/
def LoopsTo (step : α → Parse (α ⊕ β)) (a : α) (s : State)
    (outcome : Except ParseError β × State) : Prop :=
  ∃ count, count ≤ s.rest.length + 1 ∧ iterate step count a s = some outcome

variable {step : α → Parse (α ⊕ β)} {a a' : α} {s s' : State}
  {outcome : Except ParseError β × State}

theorem iterate_mono {count count' : Nat} (enough : count ≤ count')
    (run : iterate step count a s = some outcome) :
    iterate step count' a s = some outcome := by
  induction count generalizing count' a s with
  | zero => cases run
  | succ count ih =>
      cases count' with
      | zero => omega
      | succ count' =>
          simp only [iterate, bind_apply] at run ⊢
          split at run
          · cases run
          · simp [*]
          · next choice middle first =>
              cases choice with
              | inl a => exact ih (by omega) run
              | inr b => exact run

theorem LoopsTo.loop (rounds : LoopsTo step a s outcome) :
    loop step a s = some outcome := by
  rcases rounds with ⟨count, enough, run⟩
  exact iterate_mono enough run

theorem LoopsTo.done (run : step a s = some (.ok (.inr b), s')) : LoopsTo step a s (.ok b, s') := by
  refine ⟨1, by omega, ?_⟩
  rw [iterate, bind_of_ok run]
  rfl

theorem LoopsTo.next (run : step a s = some (.ok (.inl a'), s'))
    (consumes : s'.rest.length < s.rest.length) (rounds : LoopsTo step a' s' outcome) :
    LoopsTo step a s outcome := by
  rcases rounds with ⟨count, enough, later⟩
  refine ⟨count + 1, by omega, ?_⟩
  rw [iterate, bind_of_ok run]
  exact later

theorem LoopsTo.failed {e : ParseError} (run : step a s = some (.error e, s')) :
    LoopsTo step a s (.error e, s') := by
  refine ⟨1, by omega, ?_⟩
  rw [iterate, bind_of_error run]

/-- Rounds that go on consume a token. -/
def Consumes (step : α → Parse (α ⊕ β)) : Prop :=
  ∀ {a a' s s'}, step a s = some (.ok (.inl a'), s') → s'.rest.length < s.rest.length

theorem iterate_enough (consumes : Consumes step) {count count' : Nat}
    (enough : s.rest.length < count) (enough' : s.rest.length < count') :
    iterate step count a s = iterate step count' a s := by
  induction count generalizing count' a s with
  | zero => omega
  | succ count ih =>
      cases count' with
      | zero => omega
      | succ count' =>
          simp only [iterate, bind_apply]
          cases round : step a s with
          | none => rfl
          | some pair =>
              rcases pair with ⟨_ | choice, middle⟩
              · rfl
              · cases choice with
                | inl a =>
                    have shorter := consumes round
                    exact ih (by omega) (by omega)
                | inr b => rfl

theorem loop_apply (consumes : Consumes step) (a : α) (s : State) :
    loop step a s =
      (step a >>= fun choice =>
        match choice with
        | .inl a => loop step a
        | .inr b => pure b) s := by
  rw [loop, iterate, bind_apply, bind_apply]
  cases round : step a s with
  | none => rfl
  | some pair =>
      rcases pair with ⟨_ | choice, middle⟩
      · rfl
      · cases choice with
        | inl a =>
            have shorter := consumes round
            exact iterate_enough consumes (by omega) (by omega)
        | inr b => rfl

theorem loop_next (consumes : Consumes step) (run : step a s = some (.ok (.inl a'), s')) :
    loop step a s = loop step a' s' := by
  rw [loop_apply consumes, bind_of_ok run]

theorem loop_done {t : State} (run : step a s = some (.ok (.inr b), t)) :
    loop step a s = some (.ok b, t) :=
  (LoopsTo.done run).loop

end Parse

open Parse

section Tokens

variable (token kind : TokenKind) (rest : List TokenKind) (errors : List ParseError) (depth : Nat)

@[simp] theorem State.peek_cons :
    State.peek ⟨token :: rest, errors, depth⟩ = token :=
  rfl

@[simp] theorem peek_apply (s : State) : peek s = some (.ok s.peek, s) :=
  rfl

@[simp] theorem bump_cons :
    bump ⟨token :: rest, errors, depth⟩ = some (.ok (), ⟨rest, errors, depth⟩) :=
  rfl

@[simp] theorem check_apply (s : State) : check kind s = some (.ok (s.peek == kind), s) :=
  rfl

@[simp] theorem checkKeyword_apply (keyword : Keyword) (s : State) :
    checkKeyword keyword s = some (.ok (s.peek == .keyword keyword), s) :=
  rfl

theorem consume_of_ne (differs : s.peek ≠ kind) : consume kind s = some (.ok false, s) := by
  simp [consume, differs]

theorem expect_cons_self :
    expect kind ⟨kind :: rest, errors, depth⟩ = some (.ok (), ⟨rest, errors, depth⟩) := by
  simp [expect]

theorem expect_of_ne (differs : s.peek ≠ kind) :
    expect kind s = some (.error (.expected kind s.peek), s) := by
  simp [expect, differs]

theorem nested_of_run {α : Type} {message : String} {p : Parse α} {rest' : List TokenKind}
    {errors' : List ParseError} {outcome : Except ParseError α}
    (shallow : depth + 1 ≤ maxRecursionDepth)
    (run : p ⟨rest, errors, depth + 1⟩ = some (outcome, ⟨rest', errors', depth + 1⟩)) :
    nested message p ⟨rest, errors, depth⟩ = some (outcome, ⟨rest', errors', depth⟩) := by
  have notDeep : ¬ maxRecursionDepth < depth + 1 := by omega
  simp only [nested, bind_apply, get_apply, gt_iff_lt, notDeep, if_false, modify_apply, result, run]
  cases outcome <;> rfl

end Tokens

end Tinox.Parser
