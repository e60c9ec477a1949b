import Mathlib.Algebra.GroupWithZero.Nat
import Tinox.Data.Lines

/-!
# Texts with several kinds of line ends

A line may end in `b`, in `a` or in both.  A reader that knows all of them reads the text in which
each end has become a `b`; a writer that splits at `b` and strips one `a` agrees with it if each `a`
has a `b` behind it.
-/

namespace Lines

variable {α : Type} [DecidableEq α]

/-- A text is one part, or a part in front of a separator and a text. -/
theorem parts_induction {b : α} {motive : List α → Prop}
    (last : ∀ part, b ∉ part → motive part)
    (more : ∀ part text, b ∉ part → motive text → motive (part ++ b :: text)) (text : List α) :
    motive text := by
  suffices behind : ∀ part, b ∉ part → motive (part ++ text) from behind [] List.not_mem_nil
  induction text with
  | nil =>
      intro part free
      rw [List.append_nil]
      exact last part free
  | cons x text ih =>
      intro part free
      by_cases isEnd : x = b
      · rw [isEnd]
        exact more part text free (ih [] List.not_mem_nil)
      · rw [List.append_cons]
        refine ih (part ++ [x]) ?_
        rw [List.mem_append, List.mem_singleton]
        rintro (inPart | isX)
        · exact free inPart
        · exact isEnd isX.symm

/-- A text behind something without separators. -/
theorem splitOn_append_of_notMem {b : α} {front : List α} (free : b ∉ front) (text : List α) :
    (front ++ text).splitOn b = (text.splitOn b).modifyHead (front ++ ·) := by
  induction text using parts_induction (b := b) with
  | last part notIn =>
      have isFree : b ∉ front ++ part := by
        rw [List.mem_append]
        exact not_or_intro free notIn
      rw [List.splitOn_eq_singleton isFree, List.splitOn_eq_singleton notIn]
      rfl
  | more part text notIn ih =>
      have isFree : b ∉ front ++ part := by
        rw [List.mem_append]
        exact not_or_intro free notIn
      rw [← List.append_assoc, List.splitOn_append_cons_self_of_not_mem isFree,
        List.splitOn_append_cons_self_of_not_mem notIn]
      rfl

/-- The parts with their separators are as long as the text with one more. -/
theorem length_splitOn (b : α) (text : List α) :
    ((text.splitOn b).map fun part => part.length + 1).sum = text.length + 1 := by
  induction text using parts_induction (b := b) with
  | last part free => rw [List.splitOn_eq_singleton free, List.map_singleton, List.sum_singleton]
  | more part text free ih =>
      rw [List.splitOn_append_cons_self_of_not_mem free, List.map_cons, List.sum_cons, ih,
        List.length_append, List.length_cons]
      omega

omit [DecidableEq α] in
/-- Parts that each have their separator are the text with one more. -/
theorem intercalate_append (b : α) {parts : List (List α)} (some : parts ≠ []) :
    [b].intercalate parts ++ [b] = parts.flatMap fun part => part ++ [b] := by
  induction parts with
  | nil => exact absurd rfl some
  | cons part parts ih =>
      cases parts with
      | nil => rw [List.intercalate_singleton, List.flatMap_singleton]
      | cons next parts =>
          rw [List.intercalate_cons_cons, List.flatMap_cons, ← ih (List.cons_ne_nil next parts),
            List.append_assoc]

theorem stripped_of_notMem {a : α} {line : List α} (free : a ∉ line) : stripped a line = line := by
  rw [stripped, if_neg fun isLast => free (List.mem_of_getLast? isLast)]

theorem stripped_append_of_notMem {a : α} {front : List α} (free : a ∉ front) (line : List α) :
    stripped a (front ++ line) = front ++ stripped a line := by
  cases line using List.reverseRecOn with
  | nil => rw [List.append_nil, stripped_of_notMem free, stripped, List.getLast?_nil,
      if_neg (Option.some_ne_none a).symm, List.append_nil]
  | append_singleton line x =>
      rw [stripped, stripped, ← List.append_assoc, List.getLast?_concat, List.getLast?_concat]
      split
      · rw [List.dropLast_concat, List.dropLast_concat]
      · rw [List.append_assoc]

/-- The text in which each `a`, with a `b` behind it or not, has become a `b`. -/
def oneEnd (a b : α) (afterA : Bool) : List α → List α
  | [] => []
  | x :: text =>
      if x = a then b :: oneEnd a b true text
      else if x = b ∧ afterA then oneEnd a b false text
      else x :: oneEnd a b false text

/-- An `a` of the text in front is remembered. -/
theorem oneEnd_append (a b : α) (afterA : Bool) (text rest : List α) :
    oneEnd a b afterA (text ++ rest) = oneEnd a b afterA text ++
      oneEnd a b ((text.getLast?.map fun x => decide (x = a)).getD afterA) rest := by
  induction text generalizing afterA with
  | nil => rfl
  | cons x text ih =>
      have isLast : ((x :: text).getLast?.map fun y => decide (y = a)).getD afterA =
          (text.getLast?.map fun y => decide (y = a)).getD (decide (x = a)) := by
        rw [List.getLast?_cons]
        cases text.getLast? <;> rfl
      rw [isLast, List.cons_append, oneEnd, oneEnd]
      by_cases isA : x = a
      · rw [if_pos isA, if_pos isA, ih, decide_eq_true isA, List.cons_append]
      rw [if_neg isA, if_neg isA, decide_eq_false isA]
      split
      · exact ih false
      · rw [ih, List.cons_append]

/-- A text without `a` stays as it is. -/
theorem oneEnd_of_notMem {a b : α} {text : List α} (free : a ∉ text) :
    oneEnd a b false text = text := by
  induction text with
  | nil => rfl
  | cons x text ih =>
      rw [List.mem_cons, not_or] at free
      rw [oneEnd, if_neg (Ne.symm free.1), if_neg (fun isEnd => Bool.noConfusion isEnd.2), ih free.2]

theorem oneEnd_append_of_notMem {a b : α} {front : List α} (free : a ∉ front) (text : List α) :
    oneEnd a b false (front ++ text) = front ++ oneEnd a b false text := by
  rw [oneEnd_append, oneEnd_of_notMem free]
  congr 2
  rcases isLast : front.getLast? with _ | x
  · rfl
  · have inFront : x ∈ front := List.mem_of_getLast? isLast
    exact decide_eq_false fun isA => free (isA ▸ inFront)

theorem oneEnd_concat (a b : α) (text : List α) :
    oneEnd a b false (text ++ [a]) = oneEnd a b false text ++ [b] := by
  rw [oneEnd_append, oneEnd, if_pos rfl, oneEnd]

/-- A line in front of its end, which is `b` with or without an `a` in front of it. -/
theorem oneEnd_line {a b : α} (apart : b ≠ a) (line text : List α) :
    oneEnd a b false (line ++ b :: text) =
      oneEnd a b false (stripped a line) ++ b :: oneEnd a b false text := by
  rw [stripped]
  split
  next isEnd =>
    rcases List.getLast?_eq_some_iff.mp isEnd with ⟨before, rfl⟩
    rw [List.dropLast_concat, oneEnd_append, oneEnd_concat, List.getLast?_concat, Option.map_some,
      Option.getD_some, decide_eq_true rfl, oneEnd, if_neg apart, if_pos ⟨rfl, rfl⟩,
      List.append_assoc, List.singleton_append]
  next notEnd =>
    have isFalse : (line.getLast?.map fun x => decide (x = a)).getD false = false := by
      rcases isLast : line.getLast? with _ | x
      · rfl
      · exact decide_eq_false fun isA => notEnd (isA ▸ isLast)
    rw [oneEnd_append, isFalse, oneEnd, if_neg apart, if_neg (fun isEnd => Bool.noConfusion isEnd.2)]

/-- What ends in `a` has one symbol more. -/
theorem length_oneEnd_stripped (a b : α) (line : List α) :
    (oneEnd a b false (stripped a line)).length + (trailing a line).length =
      (oneEnd a b false line).length := by
  rw [stripped, trailing]
  split
  next isEnd =>
    rcases List.getLast?_eq_some_iff.mp isEnd with ⟨before, rfl⟩
    rw [List.dropLast_concat, oneEnd_concat, List.length_append, List.length_singleton,
      List.length_singleton]
  next => rfl

/-- An `a` has become a `b`. -/
theorem mem_oneEnd {a b : α} {afterA : Bool} {text : List α} (member : a ∈ text) :
    b ∈ oneEnd a b afterA text := by
  induction text generalizing afterA with
  | nil => exact absurd member List.not_mem_nil
  | cons x text ih =>
      rw [oneEnd]
      by_cases isA : x = a
      · rw [if_pos isA]
        exact List.mem_cons_self ..
      have later := (List.mem_cons.mp member).resolve_left (Ne.symm isA)
      rw [if_neg isA]
      split
      · exact ih later
      · exact List.mem_cons_of_mem x (ih later)

/-- Each `a` has a `b` behind it. -/
def Paired (a b : α) (text : List α) : Prop :=
  ∀ before after, text = before ++ a :: after → after.head? = some b

omit [DecidableEq α] in
theorem paired_part {a b : α} {part : List α} (free : b ∉ part) : Paired a b part ↔ a ∉ part := by
  constructor
  · intro paired member
    rcases List.append_of_mem member with ⟨before, after, isPart⟩
    have isNext : b ∈ after := List.mem_of_head? (paired before after isPart)
    apply free
    rw [isPart]
    exact List.mem_append_right before (List.mem_cons_of_mem a isNext)
  · intro notMem before after isPart
    refine absurd ?_ notMem
    rw [isPart]
    exact List.mem_append_right before (List.mem_cons_self ..)

theorem mem_stripped (a c : α) (before after : List α) :
    a ∈ stripped a (before ++ a :: c :: after) := by
  rw [stripped]
  split
  · rw [List.dropLast_append_cons, List.dropLast_cons_cons]
    exact List.mem_append_right before (List.mem_cons_self ..)
  · exact List.mem_append_right before (List.mem_cons_self ..)

theorem paired_line {a b : α} (apart : b ≠ a) {line : List α} (free : b ∉ line) (text : List α) :
    Paired a b (line ++ b :: text) ↔ a ∉ stripped a line ∧ Paired a b text := by
  constructor
  · intro paired
    constructor
    · intro member
      rcases List.append_of_mem member with ⟨before, after, isStripped⟩
      have isLine := stripped_append_trailing a line
      rw [isStripped, List.append_assoc, List.cons_append] at isLine
      have isNext := paired before (after ++ trailing a line ++ b :: text)
        (calc line ++ b :: text = (before ++ a :: (after ++ trailing a line)) ++ b :: text := by
                rw [isLine]
            _ = before ++ a :: (after ++ trailing a line ++ b :: text) := by
                rw [List.append_assoc, List.cons_append])
      rcases isAfter : after ++ trailing a line with _ | ⟨c, others⟩
      · -- the line ends in `a`, which would have been stripped
        rcases List.append_eq_nil_iff.mp isAfter with ⟨rfl, noTrailing⟩
        rw [noTrailing, List.append_nil] at isLine
        rw [trailing, if_pos (by rw [← isLine, List.getLast?_concat])] at noTrailing
        exact List.cons_ne_nil a [] noTrailing
      · rw [isAfter, List.cons_append, List.head?_cons, Option.some.injEq] at isNext
        apply free
        rw [← isLine, isAfter, isNext]
        exact List.mem_append_right before (List.mem_cons_of_mem a (List.mem_cons_self ..))
    · intro before after isText
      refine paired (line ++ b :: before) after ?_
      rw [isText, List.append_assoc, List.cons_append]
  · rintro ⟨notMem, paired⟩ before after isSplit
    rcases List.append_eq_append_iff.mp isSplit with ⟨inside, rfl, isText⟩ | ⟨inside, rfl, isAfter⟩
    · rcases List.cons_eq_append_iff.mp isText with ⟨-, isSame⟩ | ⟨later, rfl, isText⟩
      · exact absurd (List.cons_eq_cons.mp isSame).1.symm apart
      · exact paired later after (List.cons_eq_cons.mp isText).2
    · rcases List.cons_eq_append_iff.mp isAfter with ⟨-, isSame⟩ | ⟨later, rfl, rfl⟩
      · exact absurd (List.cons_eq_cons.mp isSame).1 apart
      · cases later with
        | nil => rfl
        | cons c later => exact absurd (mem_stripped a c before later) notMem

/-- Of a text whose ends are all `b` or `a` and `b`, the parts that are split off and stripped are
free of `a`, and are what is between the ends when they have been made one. -/
theorem intercalate_stripped {a b : α} (apart : b ≠ a) (text : List α) :
    Paired a b text →
      [b].intercalate ((text.splitOn b).map (stripped a)) = oneEnd a b false text ∧
        ∀ part ∈ text.splitOn b, a ∉ stripped a part := by
  induction text using parts_induction (b := b) with
  | last part free =>
      intro paired
      have notMem := (paired_part free).mp paired
      have notStripped : a ∉ stripped a part := fun member => notMem (stripped_subset a part member)
      rw [List.splitOn_eq_singleton free, List.map_singleton, List.intercalate_singleton,
        List.forall_mem_singleton]
      refine ⟨?_, notStripped⟩
      rw [stripped_of_notMem notMem, oneEnd_of_notMem notMem]
  | more part text free ih =>
      intro paired
      rcases (paired_line apart free text).mp paired with ⟨notMem, pairedText⟩
      rcases ih pairedText with ⟨isOneEnd, notIn⟩
      rw [List.splitOn_append_cons_self_of_not_mem free, List.forall_mem_cons]
      refine ⟨?_, notMem, notIn⟩
      rcases List.exists_cons_of_ne_nil (List.splitOn_ne_nil b text) with ⟨first, rest, isSplit⟩
      rw [isSplit, List.map_cons] at isOneEnd
      rw [isSplit, List.map_cons, List.map_cons, List.intercalate_cons_cons, isOneEnd,
        oneEnd_line apart, oneEnd_of_notMem notMem, List.append_assoc, List.singleton_append]

end Lines
