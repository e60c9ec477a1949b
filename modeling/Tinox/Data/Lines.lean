import Mathlib.Data.List.Basic
import Mathlib.Data.List.Infix

/-!
# Lines

A text that is split at a separator: its parts are free of it, and a part in front of a
separator is the first.  Lines that end in two symbols, and how the parts of a text become such
lines.
-/

namespace Lines

section Parts

variable {α : Type} [BEq α] [LawfulBEq α]

theorem bne_of_notMem {a : α} {text : List α} (free : a ∉ text) : ∀ b ∈ text, (b != a) = true := by
  intro b member
  rw [bne_iff_ne]
  rintro rfl
  exact free member

/-- A text up to a separator, and from this on. -/
theorem split_first {a : α} {part : List α} (free : a ∉ part) (rest : List α) :
    (part ++ a :: rest).takeWhile (· != a) = part ∧
      (part ++ a :: rest).dropWhile (· != a) = a :: rest := by
  rw [List.takeWhile_append_of_pos (bne_of_notMem free),
    List.dropWhile_append_of_pos (bne_of_notMem free), List.takeWhile_cons_of_neg (by simp),
    List.dropWhile_cons_of_neg (by simp), List.append_nil]
  exact ⟨rfl, rfl⟩

/-- The parts of a text are free of the separator. -/
theorem notMem_of_mem_splitOn {a : α} {text part : List α} (member : part ∈ text.splitOn a) :
    a ∉ part := by
  induction text generalizing part with
  | nil =>
      rw [List.splitOn_nil, List.mem_singleton] at member
      rw [member]
      exact List.not_mem_nil
  | cons x text ih =>
      rw [List.splitOn_cons_eq_if_modifyHead] at member
      rcases List.exists_cons_of_ne_nil (List.splitOn_ne_nil a text) with ⟨first, rest, isSplit⟩
      rw [isSplit] at member ih
      split at member
      next isSeparator =>
        rcases List.mem_cons.mp member with isEmpty | later
        · rw [isEmpty]
          exact List.not_mem_nil
        · exact ih later
      next notSeparator =>
        rw [List.modifyHead_cons, List.mem_cons] at member
        rcases member with isFirst | later
        · rw [isFirst, List.mem_cons]
          rintro (same | inFirst)
          · exact notSeparator (beq_iff_eq.mpr same.symm)
          · exact ih (List.mem_cons_self ..) inFirst
        · exact ih (List.mem_cons_of_mem _ later)

/-- Lines that each end in a separator are the first parts. -/
theorem splitOn_flatMap_append {a : α} {lines : List (List α)} (free : ∀ line ∈ lines, a ∉ line)
    (text : List α) :
    ((lines.flatMap fun line => line ++ [a]) ++ text).splitOn a = lines ++ text.splitOn a := by
  induction lines with
  | nil => rfl
  | cons line lines ih =>
      rw [List.forall_mem_cons] at free
      rw [List.flatMap_cons, List.append_assoc, List.append_assoc, List.singleton_append,
        List.splitOn_append_cons_self_of_not_mem free.1, ih free.2, List.cons_append]

/-- Lines that each end in a separator, and nothing behind them. -/
theorem splitOn_flatMap {a : α} {lines : List (List α)} (free : ∀ line ∈ lines, a ∉ line) :
    (lines.flatMap fun line => line ++ [a]).splitOn a = lines ++ [[]] := by
  have isSplit := splitOn_flatMap_append free []
  rwa [List.append_nil, List.splitOn_nil] at isSplit

end Parts

section Ends

variable {α : Type} [DecidableEq α]

/-- The lines of a text that each end in `a` and `b`; what is behind the last end is no line. -/
def terminated (a b : α) (current : List α) : List α → List (List α)
  | [] => []
  | x :: text =>
      if x = b ∧ current.getLast? = some a then current.dropLast :: terminated a b [] text
      else terminated a b (current ++ [x]) text

theorem terminated_append {a b : α} {current piece : List α} (free : ¬ [a, b] <:+: current ++ piece)
    (text : List α) : terminated a b current (piece ++ text) = terminated a b (current ++ piece) text := by
  induction piece generalizing current with
  | nil => rw [List.nil_append, List.append_nil]
  | cons x piece ih =>
      have noEnd : ¬ (x = b ∧ current.getLast? = some a) := by
        rintro ⟨rfl, isLast⟩
        rcases List.getLast?_eq_some_iff.mp isLast with ⟨before, rfl⟩
        apply free
        exact ⟨before, piece, by simp⟩
      rw [List.append_cons] at free
      rw [List.cons_append, terminated, if_neg noEnd, ih free, List.append_assoc, List.singleton_append]

/-- A line in front of its end is the first. -/
theorem terminated_line {a b : α} {line : List α} (free : ¬ [a, b] <:+: line ++ [a])
    (text : List α) :
    terminated a b [] (line ++ [a, b] ++ text) = line :: terminated a b [] text := by
  have isSplit : line ++ [a, b] ++ text = (line ++ [a]) ++ (b :: text) := by simp
  have isEnd : b = b ∧ (line ++ [a]).getLast? = some a := ⟨rfl, List.getLast?_concat⟩
  rw [isSplit, terminated_append (by rwa [List.nil_append]), List.nil_append, terminated, if_pos isEnd,
    List.dropLast_concat]

/-- No line has an end inside. -/
theorem free_of_mem_terminated {a b : α} {current text line : List α}
    (free : ¬ [a, b] <:+: current) (member : line ∈ terminated a b current text) :
    ¬ [a, b] <:+: line ++ [a] := by
  induction text generalizing current with
  | nil => exact absurd member List.not_mem_nil
  | cons x text ih =>
      rw [terminated] at member
      split at member
      next isEnd =>
        rcases List.getLast?_eq_some_iff.mp isEnd.2 with ⟨before, rfl⟩
        rw [List.dropLast_concat] at member
        rcases List.mem_cons.mp member with rfl | later
        · exact free
        · exact ih (fun inEmpty => by simp at inEmpty) later
      next notEnd =>
        apply ih _ member
        rw [List.infix_concat_iff]
        rintro (isSuffix | inside)
        · rcases isSuffix with ⟨before, isText⟩
          have isSame : before ++ [a] ++ [b] = current ++ [x] := by simp [← isText]
          rcases List.append_inj' isSame rfl with ⟨rfl, isLast⟩
          exact notEnd ⟨(List.singleton_inj.mp isLast).symm, List.getLast?_concat⟩
        · exact free inside

omit [DecidableEq α] in
/-- A line without the second symbol has no end inside. -/
theorem free_of_notMem {a b : α} (apart : b ≠ a) {line : List α} (notInside : b ∉ line) :
    ¬ [a, b] <:+: line ++ [a] := by
  intro inside
  have member : b ∈ line ++ [a] := inside.subset (by simp)
  rcases List.mem_append.mp member with inLine | isEnd
  · exact notInside inLine
  · exact apart (List.mem_singleton.mp isEnd)

/-- Lines without the second symbol, each with its end. -/
theorem terminated_flatMap {a b : α} (apart : b ≠ a) {lines : List (List α)}
    (free : ∀ line ∈ lines, b ∉ line) (text : List α) :
    terminated a b [] ((lines.flatMap fun line => line ++ [a, b]) ++ text) =
      lines ++ terminated a b [] text := by
  induction lines with
  | nil => rfl
  | cons line lines ih =>
      rw [List.forall_mem_cons] at free
      rw [List.flatMap_cons, List.append_assoc, terminated_line (free_of_notMem apart free.1),
        ih free.2, List.cons_append]

/-- A line without the symbol at its end. -/
def stripped (a : α) (line : List α) : List α :=
  if line.getLast? = some a then line.dropLast else line

theorem stripped_concat (a : α) (line : List α) : stripped a (line ++ [a]) = line := by
  rw [stripped, if_pos List.getLast?_concat, List.dropLast_concat]

theorem stripped_subset (a : α) (line : List α) : stripped a line ⊆ line := by
  rw [stripped]
  split
  · exact List.dropLast_subset line
  · exact List.Subset.refl line

/-- What is stripped from a line. -/
def trailing (a : α) (line : List α) : List α :=
  if line.getLast? = some a then [a] else []

theorem stripped_append_trailing (a : α) (line : List α) : stripped a line ++ trailing a line = line := by
  rw [stripped, trailing]
  split
  next isEnd =>
    rcases List.getLast?_eq_some_iff.mp isEnd with ⟨before, rfl⟩
    rw [List.dropLast_concat]
  next => exact List.append_nil line

theorem trailing_append_cons {a b : α} (apart : b ≠ a) (line text : List α) :
    trailing a (line ++ b :: text) = trailing a text := by
  rw [trailing, trailing, List.getLast?_append_cons]
  cases text with
  | nil =>
      rw [List.getLast?_singleton, if_neg (fun same => apart (Option.some.inj same))]
      rfl
  | cons x text => rw [List.getLast?_cons_cons]

/-- A text in which each `b` has an `a` in front of it. -/
def withEnds (a b : α) (afterA : Bool) : List α → List α
  | [] => []
  | x :: text =>
      if x = b ∧ afterA = false then a :: b :: withEnds a b false text
      else x :: withEnds a b (decide (x = a)) text

/-- The lines of a text that is split, joined by ends, are the text with its ends, but for what
is stripped at its own end. -/
theorem intercalate_splitOn {a b : α} (apart : b ≠ a) {current : List α} (notInside : b ∉ current)
    (text : List α) :
    [a, b].intercalate (((current ++ text).splitOn b).map (stripped a)) ++ trailing a (current ++ text) =
      current ++ withEnds a b (decide (current.getLast? = some a)) text := by
  induction text generalizing current with
  | nil =>
      rw [List.append_nil, List.splitOn_eq_singleton notInside, List.map_singleton,
        List.intercalate_singleton, stripped_append_trailing, withEnds, List.append_nil]
  | cons x text ih =>
      rw [withEnds]
      by_cases isB : x = b
      · subst isB
        have later := @ih [] List.not_mem_nil
        simp only [List.nil_append, List.getLast?_nil, reduceCtorEq, decide_false] at later
        rcases List.exists_cons_of_ne_nil (List.splitOn_ne_nil x text) with ⟨first, rest, isSplit⟩
        rw [List.splitOn_append_cons_self_of_not_mem notInside, trailing_append_cons apart, List.map_cons,
          isSplit, List.map_cons, List.intercalate_cons_cons, List.append_assoc, ← List.map_cons,
          ← isSplit, List.append_assoc, later]
        by_cases isEnd : current.getLast? = some a
        · rcases List.getLast?_eq_some_iff.mp isEnd with ⟨before, rfl⟩
          rw [stripped_concat]
          simp [apart]
        · rw [stripped, if_neg isEnd]
          simp [isEnd]
      · have notInside' : b ∉ current ++ [x] := by
          simp [notInside, Ne.symm isB]
        have later := ih notInside'
        rw [List.getLast?_concat] at later
        simp only [Option.some.injEq] at later
        rw [if_neg (fun isSplit => isB isSplit.1), List.append_cons, later, List.append_assoc,
          List.singleton_append]

end Ends

end Lines
