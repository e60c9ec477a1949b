import Mathlib.Data.List.Infix
import Tinox.Runtime.Map

/-!
# Substrings

`strstr` finds the first occurrence of a string in another one, and `tinox_string_split` cuts a
string at the occurrences of a delimiter.
-/

namespace Tinox.Runtime

/-- `strstr`, as a position. -/
def strstr (needle : CString) : CString → Option Nat
  | [] => if needle = [] then some 0 else none
  | c :: s => if needle.isPrefixOf (c :: s) then some 0 else (strstr needle s).map (· + 1)

variable {needle s : CString} {c : UInt8} {found : Nat}

theorem strstr_bound {k : Nat} (found : strstr needle s = some k) :
    k + needle.length ≤ s.length := by
  induction s generalizing k with
  | nil =>
      rw [strstr] at found
      split at found
      next isEmpty =>
        cases found
        simp [isEmpty]
      next => contradiction
  | cons c s ih =>
      rw [strstr] at found
      split at found
      next isHere =>
        cases found
        rw [List.isPrefixOf_iff_prefix] at isHere
        rw [Nat.zero_add]
        exact isHere.length_le
      next =>
        rcases Option.map_eq_some_iff.mp found with ⟨j, isLater, rfl⟩
        have bound := ih isLater
        rw [List.length_cons]
        omega

theorem strstr_append {k : Nat} (found : strstr needle s = some k) (more : CString) :
    strstr needle (s ++ more) = some k := by
  induction s generalizing k with
  | nil =>
      rw [strstr] at found
      split at found
      next isEmpty =>
        cases found
        rw [isEmpty, List.nil_append]
        cases more <;> rfl
      next => contradiction
  | cons c s ih =>
      rw [strstr] at found
      rw [List.cons_append, strstr]
      split at found
      next isHere =>
        have isHere' : needle.isPrefixOf (c :: (s ++ more)) := by
          rw [List.isPrefixOf_iff_prefix] at isHere ⊢
          exact isHere.trans (List.prefix_append (c :: s) more)
        rw [if_pos isHere', found]
      next notHere =>
        rcases Option.map_eq_some_iff.mp found with ⟨j, isLater, rfl⟩
        have bound := strstr_bound isLater
        have notHere' : ¬ needle.isPrefixOf (c :: (s ++ more)) := by
          rw [List.isPrefixOf_iff_prefix] at notHere ⊢
          intro isHere
          apply notHere
          apply List.prefix_of_prefix_length_le isHere (List.prefix_append (c :: s) more)
          rw [List.length_cons]
          omega
        rw [if_neg notHere', ih isLater]
        rfl

theorem strstr_free {piece : CString} (free : c ∉ piece) (s : CString) :
    strstr (c :: needle) (piece ++ s) =
      (strstr (c :: needle) s).map (· + piece.length) := by
  induction piece with
  | nil => simp
  | cons b piece ih =>
      rw [List.mem_cons, not_or] at free
      have notHere : ¬ (c :: needle).isPrefixOf (b :: (piece ++ s)) := by
        rw [List.isPrefixOf_iff_prefix, List.cons_prefix_cons]
        exact fun isHere => free.1 isHere.1
      rw [List.cons_append, strstr, if_neg notHere, ih free.2, Option.map_map]
      congr 1

theorem strstr_here (needle s : CString) : strstr needle (needle ++ s) = some 0 := by
  have isPrefix : needle.isPrefixOf (needle ++ s) := List.isPrefixOf_iff_prefix.mpr ⟨s, rfl⟩
  revert isPrefix
  cases needle ++ s with
  | nil =>
      intro isPrefix
      rw [strstr, if_pos (List.prefix_nil.mp (List.isPrefixOf_iff_prefix.mp isPrefix))]
  | cons c s =>
      intro isPrefix
      rw [strstr, if_pos isPrefix]

theorem strstr_split (isFound : strstr needle s = some found) :
    s.take found ++ needle ++ s.drop (found + needle.length) = s := by
  induction s generalizing found with
  | nil =>
      rw [strstr] at isFound
      split at isFound
      next isEmpty =>
        cases isFound
        rw [isEmpty]
        rfl
      next => contradiction
  | cons c s ih =>
      rw [strstr] at isFound
      split at isFound
      next isHere =>
        cases isFound
        rw [Nat.zero_add, List.take_zero, List.nil_append]
        exact (List.prefix_append_drop (List.isPrefixOf_iff_prefix.mp isHere)).symm
      next =>
        rcases Option.map_eq_some_iff.mp isFound with ⟨later, isLater, rfl⟩
        rw [Nat.add_right_comm, List.take_succ_cons, List.drop_succ_cons, List.cons_append,
          List.cons_append, ih isLater]

theorem length_drop_found (some : needle ≠ []) (isFound : strstr needle s = .some found) :
    (s.drop (found + needle.length)).length < s.length := by
  have bound := strstr_bound isFound
  have positive := List.length_pos_iff.mpr some
  rw [List.length_drop]
  omega

theorem strstr_none_iff (needle s : CString) : strstr needle s = none ↔ ¬ needle <:+: s := by
  induction s with
  | nil =>
      rw [strstr, List.infix_nil]
      split
      next isEmpty => simp [isEmpty]
      next some => simp [some]
  | cons c s ih =>
      rw [strstr, List.infix_cons_iff, ← List.isPrefixOf_iff_prefix]
      split
      next isHere => simp [isHere]
      next notHere => rw [Option.map_eq_none_iff, ih, or_iff_right notHere]

theorem take_found_free (some : needle ≠ []) (isFound : strstr needle s = .some found) :
    ¬ needle <:+: s.take found := by
  rw [← strstr_none_iff]
  cases isEarlier : strstr needle (s.take found) with
  | none => rfl
  | some place =>
      have same := strstr_append isEarlier (s.drop found)
      rw [List.take_append_drop, isFound] at same
      injection same with same
      have bound := strstr_bound isEarlier
      have positive := List.length_pos_iff.mpr some
      rw [List.length_take, ← same] at bound
      omega

/-- The number of occurrences from left to right, none of which overlap. -/
def occurrences (needle : CString) : CString → Nat
  | [] => 0
  | c :: s =>
      if _ : needle = [] then 0
      else if needle <+: c :: s then occurrences needle ((c :: s).drop needle.length) + 1
      else occurrences needle s
termination_by s => s.length
decreasing_by
  · have positive := List.length_pos_iff.mpr ‹_›
    rw [List.length_drop, List.length_cons]
    omega
  · exact Nat.lt_succ_self _

theorem occurrences_none (isNone : strstr needle s = none) : occurrences needle s = 0 := by
  induction s with
  | nil => rw [occurrences]
  | cons c s ih =>
      rw [strstr] at isNone
      split at isNone
      next => exact (Option.some_ne_none _ isNone).elim
      next notHere =>
        rw [occurrences, ih (Option.map_eq_none_iff.mp isNone)]
        rw [List.isPrefixOf_iff_prefix] at notHere
        simp [notHere]

theorem occurrences_some (some : needle ≠ []) (isFound : strstr needle s = .some found) :
    occurrences needle s = occurrences needle (s.drop (found + needle.length)) + 1 := by
  induction s generalizing found with
  | nil =>
      rw [strstr, if_neg some] at isFound
      contradiction
  | cons c s ih =>
      rw [strstr] at isFound
      rw [occurrences, dif_neg some]
      split at isFound
      next isHere =>
        rw [List.isPrefixOf_iff_prefix] at isHere
        cases isFound
        rw [if_pos isHere, Nat.zero_add]
      next notHere =>
        rw [List.isPrefixOf_iff_prefix] at notHere
        rcases Option.map_eq_some_iff.mp isFound with ⟨later, isLater, rfl⟩
        rw [if_neg notHere, ih isLater, Nat.add_right_comm, List.drop_succ_cons]

/-- `tinox_string_split`. -/
def tinoxStringSplit (delim str : CString) : List CString :=
  if delim = [] then
    if str = [] then [[]] else str.map fun c => [c]
  else
    match _ : strstr delim str with
    | none => [str]
    | some found => str.take found :: tinoxStringSplit delim (str.drop (found + delim.length))
termination_by str.length
decreasing_by exact length_drop_found ‹_› ‹_›

variable {delim str : CString}

theorem tinoxStringSplit_none (some : delim ≠ []) (isNone : strstr delim str = none) :
    tinoxStringSplit delim str = [str] := by
  rw [tinoxStringSplit, if_neg some]
  split
  next => rfl
  next found isFound =>
    rw [isNone] at isFound
    contradiction

theorem tinoxStringSplit_some (some : delim ≠ []) (isFound : strstr delim str = .some found) :
    tinoxStringSplit delim str =
      str.take found :: tinoxStringSplit delim (str.drop (found + delim.length)) := by
  rw [tinoxStringSplit, if_neg some]
  split
  next isNone =>
    rw [isNone] at isFound
    contradiction
  next place isPlace =>
    rw [isPlace] at isFound
    cases isFound
    rfl

theorem exists_tinoxStringSplit (some : delim ≠ []) (str : CString) :
    ∃ first rest, tinoxStringSplit delim str = first :: rest ∧
      first ++ rest.flatMap (delim ++ ·) = str := by
  fun_induction tinoxStringSplit delim str with
  | case1 => contradiction
  | case2 => contradiction
  | case3 str _ isNone => exact ⟨str, [], rfl, List.append_nil str⟩
  | case4 str _ found isFound ih =>
      rcases ih with ⟨first, rest, isSplit, isText⟩
      refine ⟨_, _, rfl, ?_⟩
      rw [isSplit, List.flatMap_cons, List.append_assoc, isText, ← List.append_assoc,
        strstr_split isFound]

theorem tinoxStringSplit_ne_nil (some : delim ≠ []) (str : CString) :
    tinoxStringSplit delim str ≠ [] := by
  rcases exists_tinoxStringSplit some str with ⟨first, rest, isSplit, -⟩
  rw [isSplit]
  exact List.cons_ne_nil first rest

theorem intercalate_cons (sep first : CString) (rest : List CString) :
    sep.intercalate (first :: rest) = first ++ rest.flatMap (sep ++ ·) := by
  induction rest generalizing first with
  | nil => rw [List.intercalate_singleton, List.flatMap_nil, List.append_nil]
  | cons second rest ih =>
      rw [List.intercalate_cons_cons, ih, List.flatMap_cons, List.append_assoc, List.append_assoc]

theorem intercalate_tinoxStringSplit (some : delim ≠ []) (str : CString) :
    delim.intercalate (tinoxStringSplit delim str) = str := by
  rcases exists_tinoxStringSplit some str with ⟨first, rest, isSplit, isText⟩
  rw [isSplit, intercalate_cons, isText]

theorem length_tinoxStringSplit (some : delim ≠ []) (str : CString) :
    (tinoxStringSplit delim str).length = occurrences delim str + 1 := by
  fun_induction tinoxStringSplit delim str with
  | case1 => contradiction
  | case2 => contradiction
  | case3 str _ isNone => rw [occurrences_none isNone, List.length_singleton]
  | case4 str _ found isFound ih => rw [List.length_cons, ih, occurrences_some some isFound]

theorem not_infix_of_mem_split {part : CString} (some : delim ≠ [])
    (isPart : part ∈ tinoxStringSplit delim str) : ¬ delim <:+: part := by
  fun_induction tinoxStringSplit delim str with
  | case1 => contradiction
  | case2 => contradiction
  | case3 str _ isNone =>
      rw [List.mem_singleton.mp isPart]
      exact (strstr_none_iff delim str).mp isNone
  | case4 str _ found isFound ih =>
      rcases List.mem_cons.mp isPart with rfl | later
      · exact take_found_free some isFound
      · exact ih later

theorem tinoxStringSplit_append {piece : CString} (free : c ∉ piece) (s : CString) :
    tinoxStringSplit (c :: delim) (piece ++ (c :: delim) ++ s) =
      piece :: tinoxStringSplit (c :: delim) s := by
  have isFound : strstr (c :: delim) (piece ++ (c :: delim) ++ s) = some piece.length := by
    rw [List.append_assoc, strstr_free free, strstr_here, Option.map_some, Nat.zero_add]
  rw [tinoxStringSplit_some (List.cons_ne_nil c delim) isFound, ← List.length_append,
    List.drop_left, List.append_assoc, List.take_left]

theorem tinoxStringSplit_free (free : c ∉ str) : tinoxStringSplit (c :: delim) str = [str] := by
  apply tinoxStringSplit_none (List.cons_ne_nil c delim)
  rw [← List.append_nil str, strstr_free free]
  rfl

end Tinox.Runtime
