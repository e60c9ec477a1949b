import Mathlib.Data.List.Basic
import Mathlib.Data.List.Infix

/-!
# Conditions of queries

The condition of a query as the database reads it, a list of tokens in which
NOT binds tighter than AND and AND tighter than OR, and the patterns of LIKE.
-/

namespace Sql

universe u

/-- The tokens of a condition over tests. -/
inductive Token (α : Type u) where
  | lparen
  | rparen
  | and
  | or
  | not
  | test (a : α)
  deriving DecidableEq

/-- A condition that is being read: the alternatives that are finished, the
conjuncts of the current one, whether a NOT stands before the next operand, and
whether an operand has just ended. -/
structure Frame where
  alternatives : Bool
  conjuncts : Bool
  negated : Bool
  complete : Bool
  deriving DecidableEq

namespace Frame

/-- Nothing read yet. -/
def empty : Frame := ⟨false, true, false, false⟩

/-- The frame waits for an operand without NOT. -/
structure Waits (f : Frame) : Prop where
  incomplete : f.complete = false
  plain : f.negated = false

/-- One more conjunct. -/
def conjoin (f : Frame) (b : Bool) : Frame :=
  ⟨f.alternatives, f.conjuncts && b, false, true⟩

/-- An operand ends. -/
def operand (f : Frame) (b : Bool) : Option Frame :=
  if f.complete then none else some (f.conjoin (b != f.negated))

/-- AND is read. -/
def readAnd (f : Frame) : Option Frame :=
  if f.complete then some { f with complete := false } else none

/-- OR is read. -/
def readOr (f : Frame) : Option Frame :=
  if f.complete then some ⟨f.alternatives || f.conjuncts, true, false, false⟩ else none

/-- NOT is read. -/
def readNot (f : Frame) : Option Frame :=
  if f.complete then none else some { f with negated := !f.negated }

/-- The condition ends. -/
def value (f : Frame) : Option Bool :=
  if f.complete then some (f.alternatives || f.conjuncts) else none

theorem waits_empty : empty.Waits := ⟨rfl, rfl⟩

theorem operand_of_waits {f : Frame} (waits : f.Waits) (b : Bool) :
    f.operand b = some (f.conjoin b) := by
  rw [operand, waits.incomplete, waits.plain, Bool.bne_false]
  rfl

theorem readAnd_conjoin (f : Frame) (b : Bool) :
    (f.conjoin b).readAnd = some ⟨f.alternatives, f.conjuncts && b, false, false⟩ :=
  rfl

theorem readOr_conjoin (f : Frame) (b : Bool) :
    (f.conjoin b).readOr = some ⟨f.alternatives || (f.conjuncts && b), true, false, false⟩ :=
  rfl

end Frame

variable {α : Type u} (truth : α → Bool)

/-- Read tokens in a frame, with the frames of the open parentheses. -/
def read : List (Token α) → Frame → List Frame → Option Bool
  | [], f, [] => f.value
  | [], _, _ :: _ => none
  | .test a :: rest, f, open_ => (f.operand (truth a)).bind fun f => read rest f open_
  | .and :: rest, f, open_ => f.readAnd.bind fun f => read rest f open_
  | .or :: rest, f, open_ => f.readOr.bind fun f => read rest f open_
  | .not :: rest, f, open_ => f.readNot.bind fun f => read rest f open_
  | .lparen :: rest, f, open_ => if f.complete then none else read rest .empty (f :: open_)
  | .rparen :: _, _, [] => none
  | .rparen :: rest, f, g :: open_ =>
      f.value.bind fun b => (g.operand b).bind fun g => read rest g open_

/-- The truth of a condition; `none` for a syntax error. -/
def evaluate (tokens : List (Token α)) : Option Bool :=
  read truth tokens .empty []

/-- A condition that may be followed by AND: it adds one conjunct. -/
def Conjunct (tokens : List (Token α)) (b : Bool) : Prop :=
  ∀ rest f open_, f.Waits →
    read truth (tokens ++ rest) f open_ = read truth rest (f.conjoin b) open_

/-- A whole condition: it has this value before its end or a parenthesis. -/
structure Whole (tokens : List (Token α)) (b : Bool) : Prop where
  ends : evaluate truth tokens = some b
  closes : ∀ rest f open_, f.complete = false →
    read truth (.lparen :: (tokens ++ .rparen :: rest)) f open_ =
      (f.operand b).bind fun f => read truth rest f open_

variable {truth}

variable {tokens left right : List (Token α)} {b a : Bool}

theorem Conjunct.whole (conjunct : Conjunct truth tokens b) : Whole truth tokens b where
  ends := by
    have only := conjunct [] .empty [] Frame.waits_empty
    rw [List.append_nil] at only
    rw [evaluate, only]
    cases b <;> rfl
  closes rest f open_ incomplete := by
    rw [read, incomplete]
    simp only [Bool.false_eq_true, if_false]
    rw [conjunct _ _ _ Frame.waits_empty, read]
    cases b <;> rfl

theorem Whole.group (whole : Whole truth tokens b) :
    Conjunct truth (.lparen :: (tokens ++ [.rparen])) b := by
  intro rest f open_ waits
  rw [List.cons_append, List.append_assoc, List.singleton_append,
    whole.closes _ _ _ waits.incomplete, Frame.operand_of_waits waits, Option.bind_some]

theorem conjunct_test (a : α) : Conjunct truth [.test a] (truth a) := by
  intro rest f open_ waits
  rw [List.singleton_append, read, Frame.operand_of_waits waits, Option.bind_some]

theorem Whole.not (whole : Whole truth tokens b) :
    Conjunct truth (.not :: .lparen :: (tokens ++ [.rparen])) (!b) := by
  intro rest f open_ waits
  rw [List.cons_append, List.cons_append, List.append_assoc, List.singleton_append, read,
    Frame.readNot, waits.incomplete, waits.plain]
  simp only [Bool.false_eq_true, if_false, Option.bind_some, Bool.not_false]
  rw [whole.closes _ _ _ rfl]
  cases b <;> rfl

theorem Conjunct.and (leftConjunct : Conjunct truth left a) (rightConjunct : Conjunct truth right b) :
    Conjunct truth (left ++ .and :: right) (a && b) := by
  intro rest f open_ waits
  rw [List.append_assoc, List.cons_append, leftConjunct _ _ _ waits, read, Frame.readAnd_conjoin,
    Option.bind_some, rightConjunct _ _ _ ⟨rfl, rfl⟩]
  simp only [Frame.conjoin, Bool.and_assoc]

/-- What reading conjuncts with OR between them does to the condition before them. -/
theorem read_or (leftConjunct : Conjunct truth left a) (rightConjunct : Conjunct truth right b)
    (rest : List (Token α)) {f : Frame} (open_ : List Frame) (waits : f.Waits) :
    read truth (left ++ .or :: right ++ rest) f open_ =
      read truth rest ⟨f.alternatives || (f.conjuncts && a), b, false, true⟩ open_ := by
  rw [List.append_assoc, List.cons_append, leftConjunct _ _ _ waits, read, Frame.readOr_conjoin,
    Option.bind_some, rightConjunct _ _ _ ⟨rfl, rfl⟩]
  rfl

theorem Conjunct.or (leftConjunct : Conjunct truth left a) (rightConjunct : Conjunct truth right b) :
    Whole truth (left ++ .or :: right) (a || b) where
  ends := by
    have both := read_or leftConjunct rightConjunct [] [] Frame.waits_empty
    rw [List.append_nil] at both
    rw [evaluate, both]
    cases a <;> cases b <;> rfl
  closes rest f open_ incomplete := by
    rw [read, incomplete]
    simp only [Bool.false_eq_true, if_false]
    rw [read_or leftConjunct rightConjunct _ _ Frame.waits_empty, read]
    cases a <;> cases b <;> rfl

/-- Conditions joined with AND, without parentheses. -/
def joinAnd : List (List (Token α)) → List (Token α)
  | [] => []
  | [part] => part
  | part :: next :: parts => part ++ .and :: joinAnd (next :: parts)

theorem conjunct_joinAnd {parts : List (List (Token α))} {values : List Bool}
    (nonempty : parts ≠ [])
    (conjuncts : List.Forall₂ (Conjunct truth) parts values) :
    Conjunct truth (joinAnd parts) (values.all id) := by
  induction conjuncts with
  | nil => exact absurd rfl nonempty
  | @cons part b parts values conjunct rest ih =>
      cases rest with
      | nil => simpa [joinAnd] using conjunct
      | @cons next c parts values nextConjunct rest =>
          exact conjunct.and (ih (by simp))

/-- A text matches a pattern with the wildcards `%` and `_`. -/
def like : List Char → List Char → Bool
  | [], text => text.isEmpty
  | c :: pattern, text =>
      if c = '%' then text.tails.any (like pattern)
      else
        match text with
        | [] => false
        | d :: text => (c == '_' || c == d) && like pattern text

/-- A text without wildcards. -/
def Literal (text : List Char) : Prop :=
  ∀ c ∈ text, c ≠ '%' ∧ c ≠ '_'

variable {literal : List Char}

theorem like_percent (pattern text : List Char) :
    like ('%' :: pattern) text = text.tails.any (like pattern) := by
  rw [like.eq_def]
  exact if_pos rfl

theorem like_any (text : List Char) : like ['%'] text = true := by
  rw [like_percent, List.any_eq_true]
  exact ⟨[], (List.mem_tails _ _).mpr List.nil_suffix, rfl⟩

theorem like_append_iff (plain : Literal literal) (pattern text : List Char) :
    like (literal ++ pattern) text = true ↔
      ∃ rest, text = literal ++ rest ∧ like pattern rest = true := by
  induction literal generalizing text with
  | nil => simp
  | cons c literal ih =>
      have plainHead := plain c List.mem_cons_self
      have plainTail : Literal literal := fun d member => plain d (List.mem_cons_of_mem _ member)
      rw [List.cons_append, like.eq_def]
      simp only [plainHead.1, if_false]
      cases text with
      | nil => simp
      | cons d text =>
          simp only [Bool.and_eq_true, Bool.or_eq_true, beq_iff_eq, plainHead.2, false_or,
            ih plainTail, List.cons_append, List.cons.injEq, eq_comm (a := c), and_assoc,
            exists_and_left]

theorem like_prefix (plain : Literal literal) (text : List Char) :
    like (literal ++ ['%']) text = true ↔ literal <+: text := by
  rw [like_append_iff plain]
  constructor
  · rintro ⟨rest, rfl, -⟩
    exact ⟨rest, rfl⟩
  · rintro ⟨rest, rfl⟩
    exact ⟨rest, rfl, like_any rest⟩

theorem like_literal (plain : Literal literal) (text : List Char) :
    like literal text = true ↔ text = literal := by
  have split := like_append_iff plain [] text
  rw [List.append_nil] at split
  rw [split]
  simp [like]

theorem like_suffix (plain : Literal literal) (text : List Char) :
    like ('%' :: literal) text = true ↔ literal <:+ text := by
  simp only [like_percent, List.any_eq_true, List.mem_tails, like_literal plain, exists_eq_right]

theorem like_infix (plain : Literal literal) (text : List Char) :
    like ('%' :: (literal ++ ['%'])) text = true ↔ literal <:+: text := by
  simp only [like_percent, List.any_eq_true, List.mem_tails, like_prefix plain]
  constructor
  · rintro ⟨rest, suffix, starts⟩
    exact List.infix_iff_prefix_suffix.mpr ⟨rest, starts, suffix⟩
  · intro contained
    rcases List.infix_iff_prefix_suffix.mp contained with ⟨rest, starts, suffix⟩
    exact ⟨rest, suffix, starts⟩

end Sql
