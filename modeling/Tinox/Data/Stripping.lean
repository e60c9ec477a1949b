import Mathlib.Data.List.DropRight
import Mathlib.Data.List.TakeWhile

/-!
# Stripping

A text without the symbols of a kind that stand around it, such as blanks.  Two kinds, of which
the one is part of the other, leave the same text exactly when the symbols around it are of both.
-/

namespace Stripping

variable {α : Type} {p q : α → Bool}

/-- A text without the symbols of a kind around it. -/
def strip (p : α → Bool) (text : List α) : List α :=
  (text.dropWhile p).rdropWhile p

theorem dropWhile_append {back : List α} (stops : ∀ b ∈ back.head?, ¬ p b) (front : List α) :
    (front ++ back).dropWhile p = front.dropWhile p ++ back := by
  induction front with
  | nil =>
      cases back with
      | nil => rfl
      | cons b back =>
          rw [List.nil_append, List.dropWhile_cons_of_neg (stops b rfl), List.dropWhile_nil,
            List.nil_append]
  | cons a front ih =>
      rw [List.cons_append, List.dropWhile_cons, List.dropWhile_cons]
      split
      · exact ih
      · rfl

theorem rdropWhile_append {front : List α} (stops : ∀ b ∈ front.getLast?, ¬ p b)
    (back : List α) : (front ++ back).rdropWhile p = front ++ back.rdropWhile p := by
  have stops' : ∀ b ∈ front.reverse.head?, ¬ p b := by
    rw [List.head?_reverse]
    exact stops
  rw [List.rdropWhile, List.reverse_append, dropWhile_append stops', List.reverse_append,
    List.reverse_reverse]
  rfl

theorem dropWhile_congr {text : List α} (same : ∀ b ∈ text, p b = q b) :
    text.dropWhile p = text.dropWhile q := by
  induction text with
  | nil => rfl
  | cons b text ih =>
      rw [List.forall_mem_cons] at same
      rw [List.dropWhile_cons, List.dropWhile_cons, same.1, ih same.2]

theorem rdropWhile_congr {text : List α} (same : ∀ b ∈ text, p b = q b) :
    text.rdropWhile p = text.rdropWhile q := by
  rw [List.rdropWhile, List.rdropWhile, dropWhile_congr fun b member => same b (List.mem_reverse.mp member)]

/-- A text that neither starts nor ends in a symbol of the kind. -/
structure Bare (p : α → Bool) (text : List α) : Prop where
  some : text ≠ []
  first : ∀ b ∈ text.head?, ¬ p b
  last : ∀ b ∈ text.getLast?, ¬ p b

theorem Bare.of_forall {text : List α} (some : text ≠ []) (none : ∀ b ∈ text, ¬ p b) :
    Bare p text where
  some := some
  first b isFirst := none b (List.mem_of_head? isFirst)
  last b isLast := none b (List.mem_of_getLast? isLast)

/-- Around a bare text, only what stands in front and behind is stripped. -/
theorem strip_append {text : List α} (bare : Bare p text) (before after : List α) :
    strip p (before ++ text ++ after) = before.dropWhile p ++ text ++ after.rdropWhile p := by
  have starts : ∀ b ∈ (text ++ after).head?, ¬ p b := by
    rw [List.head?_append_of_ne_nil text bare.some]
    exact bare.first
  have ends : ∀ b ∈ (before.dropWhile p ++ text).getLast?, ¬ p b := by
    rw [List.getLast?_append_of_ne_nil _ bare.some]
    exact bare.last
  rw [strip, List.append_assoc, dropWhile_append starts, ← List.append_assoc,
    rdropWhile_append ends]

theorem strip_eq_self {text : List α} (bare : Bare p text) : strip p text = text := by
  have stripped := strip_append bare [] []
  rwa [List.append_nil, List.nil_append, List.dropWhile_nil, List.rdropWhile_nil, List.append_nil,
    List.nil_append] at stripped

theorem strip_eq_nil_iff (text : List α) : strip p text = [] ↔ ∀ b ∈ text, p b := by
  rw [strip, List.rdropWhile_eq_nil_iff]
  constructor
  · intro all b member
    rw [← List.takeWhile_append_dropWhile (p := p) (l := text), List.mem_append] at member
    rcases member with isBefore | isBehind
    · exact List.mem_takeWhile_imp isBefore
    · exact all b isBehind
  · exact fun all b member => all b ((List.dropWhile_suffix p).subset member)

/-- What is left, if anything, is bare. -/
theorem bare_strip {text : List α} (some : strip p text ≠ []) : Bare p (strip p text) where
  some := some
  first := by
    intro b isFirst
    have isHead := List.head?_dropWhile_not p text
    have isSplit := List.rdropWhile_append_rtakeWhile (p := p) (l := text.dropWhile p)
    change strip p text ++ _ = _ at isSplit
    rw [← isSplit, List.head?_append_of_ne_nil _ some, Option.mem_def.mp isFirst] at isHead
    rw [Bool.not_eq_true]
    exact isHead
  last := by
    intro b isLast
    rw [List.getLast?_eq_some_getLast some, Option.mem_some_iff] at isLast
    rw [← isLast]
    exact List.rdropWhile_last_not p (text.dropWhile p) some

/-- A text with what is stripped of it. -/
theorem append_strip (text : List α) :
    text.takeWhile p ++ strip p text ++ (text.dropWhile p).rtakeWhile p = text := by
  rw [strip, List.append_assoc, List.rdropWhile_append_rtakeWhile, List.takeWhile_append_dropWhile]

theorem takeWhile_append {text before : List α} (bare : Bare p text) (areBefore : ∀ b ∈ before, p b)
    (after : List α) : (before ++ text ++ after).takeWhile p = before := by
  rcases List.exists_cons_of_ne_nil bare.some with ⟨b, rest, rfl⟩
  rw [List.append_assoc, List.takeWhile_append_of_pos areBefore, List.cons_append,
    List.takeWhile_cons_of_neg (bare.first b rfl), List.append_nil]

theorem rtakeWhile_append {text after : List α} (bare : Bare p text) (areAfter : ∀ b ∈ after, p b)
    (before : List α) : (before ++ text ++ after).rtakeWhile p = after := by
  have isReverse : Bare p text.reverse := by
    refine ⟨?_, ?_, ?_⟩
    · rw [ne_eq, List.reverse_eq_nil_iff]
      exact bare.some
    · rw [List.head?_reverse]
      exact bare.last
    · rw [List.getLast?_reverse]
      exact bare.first
  have areReverse : ∀ b ∈ after.reverse, p b :=
    fun b member => areAfter b (List.mem_reverse.mp member)
  rw [List.rtakeWhile, List.reverse_append, List.reverse_append, ← List.append_assoc,
    takeWhile_append isReverse areReverse, List.reverse_reverse]

theorem Bare.mono (wider : ∀ b, q b → p b) {text : List α} (bare : Bare p text) : Bare q text where
  some := bare.some
  first b isFirst isKind := bare.first b isFirst (wider b isKind)
  last b isLast isKind := bare.last b isLast (wider b isKind)

/-- A kind leaves what a wider one does exactly when all that stands around is of it. -/
theorem strip_eq_strip_iff (wider : ∀ b, q b → p b) (text : List α) :
    strip q text = strip p text ↔
      (∀ b ∈ text.takeWhile p, q b) ∧ ∀ b ∈ text.rtakeWhile p, q b := by
  by_cases isEmpty : strip p text = []
  · have all := (strip_eq_nil_iff text).mp isEmpty
    rw [isEmpty, strip_eq_nil_iff, List.takeWhile_eq_self_iff.mpr all,
      List.rtakeWhile_eq_self_iff.mpr all]
    exact (and_self_iff).symm
  · have bare := bare_strip isEmpty
    have isText := append_strip (p := p) text
    have areBefore : ∀ b ∈ text.takeWhile p, p b := fun b member => List.mem_takeWhile_imp member
    have areAfter : ∀ b ∈ (text.dropWhile p).rtakeWhile p, p b :=
      fun b member => List.mem_rtakeWhile_imp member
    generalize text.takeWhile p = before at isText areBefore
    generalize (text.dropWhile p).rtakeWhile p = after at isText areAfter
    generalize strip p text = middle at isText bare
    subst isText
    rw [rtakeWhile_append bare areAfter,
      strip_append (bare.mono wider), ← List.dropWhile_eq_nil_iff, ← List.rdropWhile_eq_nil_iff]
    constructor
    · intro same
      have isLength := congrArg List.length same
      rw [List.length_append, List.length_append] at isLength
      exact ⟨List.eq_nil_of_length_eq_zero (by omega), List.eq_nil_of_length_eq_zero (by omega)⟩
    · rintro ⟨noneBefore, noneAfter⟩
      rw [noneBefore, noneAfter, List.nil_append, List.append_nil]

end Stripping
