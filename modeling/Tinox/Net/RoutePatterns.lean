import Mathlib.Data.List.Forall2
import Tinox.Net.Routes

/-!
# Route patterns

What a pattern of `RouteMatcher` says about a path: segment by segment the same, a `:name` any
segment, and a `*` at its end whatever follows.  `RouteMatcher` says the same except where it does
not look at segments.
-/

namespace Tinox.Net

open Tinox.Runtime

/-- A segment of a pattern is met by a segment of a path. -/
def PartFits (part value : CString) : Prop :=
  startsWith part colon ∨ part = value

/-- What a pattern says, on lists of segments that are not empty. -/
def PatternFits (parts values : List CString) : Prop :=
  if parts.getLast? = some wildcard then
    ∃ front rest, values = front ++ rest ∧ List.Forall₂ PartFits parts.dropLast front
  else List.Forall₂ PartFits parts values

/-- Each `:name` is bound to the segment at its position. -/
def BindsNames (pattern path : CString) : Prop :=
  ∀ name value, (colon :: name, value) ∈ (packed (segments pattern)).zip (packed (segments path)) →
    extractParams pattern path name = some value

/-- `RouteMatcher` matches what the pattern says, and binds its names. -/
def MeansPattern (pattern path : CString) : Prop :=
  (routeMatcherMatches pattern path ↔
      PatternFits (packed (segments pattern)) (packed (segments path))) ∧
    (routeMatcherMatches pattern path → BindsNames pattern path)

variable {α β : Type}

theorem exists_front_iff {R : α → β → Prop} (xs : List α) (ys : List β) :
    (∃ front rest, ys = front ++ rest ∧ List.Forall₂ R xs front) ↔
      xs.length ≤ ys.length ∧ ∀ pair ∈ xs.zip ys, R pair.1 pair.2 := by
  constructor
  · rintro ⟨front, rest, rfl, along⟩
    have sameLength := along.length_eq
    rw [List.length_append]
    refine ⟨by omega, fun pair member => ?_⟩
    rw [← List.append_nil xs, List.zip_append sameLength, List.zip_nil_left, List.append_nil] at member
    exact List.forall₂_zip along member
  · rintro ⟨within, pairs⟩
    refine ⟨ys.take xs.length, ys.drop xs.length, (List.take_append_drop ..).symm, ?_⟩
    rw [List.forall₂_iff_zip]
    refine ⟨(List.length_take_of_le within).symm, fun {x y} member => ?_⟩
    rw [List.zip_eq_zip_take_min] at member
    have isShort : min xs.length (ys.take xs.length).length = xs.length := by
      rw [List.length_take_of_le within, Nat.min_self]
    rw [isShort, List.take_length, List.take_take, Nat.min_self] at member
    have isSame : xs.zip ys = xs.zip (ys.take xs.length) := by
      rw [List.zip_eq_zip_take_min, Nat.min_eq_left within, List.take_length]
    exact pairs (x, y) (isSame ▸ member)

theorem mem_zip_dropLast {xs : List α} {ys : List β} {pair : α × β}
    (member : pair ∈ xs.dropLast.zip ys) : pair ∈ xs.zip ys := by
  rw [List.dropLast_eq_take, List.mem_iff_getElem?] at member
  rcases member with ⟨i, isPair⟩
  rw [List.getElem?_zip_eq_some, List.getElem?_take] at isPair
  split at isPair
  · exact List.mem_of_getElem? (List.getElem?_zip_eq_some.mpr isPair)
  · exact absurd isPair.1 (Option.some_ne_none _).symm

theorem mem_dropLast_zip_or {xs : List α} {ys : List β} {pair : α × β} (member : pair ∈ xs.zip ys) :
    pair ∈ xs.dropLast.zip ys ∨ xs.getLast? = some pair.1 := by
  induction xs generalizing ys with
  | nil => exact absurd member List.not_mem_nil
  | cons x xs ih =>
      cases ys with
      | nil => exact absurd member List.not_mem_nil
      | cons y ys =>
          rw [List.zip_cons_cons, List.mem_cons] at member
          cases xs with
          | nil =>
              rcases member with rfl | later
              · exact Or.inr rfl
              · exact absurd later List.not_mem_nil
          | cons x' xs =>
              rw [List.dropLast_cons_cons, List.zip_cons_cons, List.mem_cons, List.getLast?_cons_cons]
              rcases member with isFirst | later
              · exact Or.inl (Or.inl isFirst)
              · exact (ih later).imp_left Or.inr

theorem meetAll_iff (parts values : List CString) :
    MeetAll parts values ↔ ∀ pair ∈ parts.zip values, Meets pair.1 pair.2 := by
  induction parts generalizing values with
  | nil => exact iff_of_true trivial nofun
  | cons part parts ih =>
      cases values with
      | nil => exact iff_of_true trivial nofun
      | cons value values => rw [MeetAll, ih, List.zip_cons_cons, List.forall_mem_cons]

theorem patternFits_iff (parts values : List CString) : PatternFits parts values ↔
    if parts.getLast? = some wildcard then
      parts.length ≤ values.length + 1 ∧ ∀ pair ∈ parts.dropLast.zip values, PartFits pair.1 pair.2
    else parts.length = values.length ∧ ∀ pair ∈ parts.zip values, PartFits pair.1 pair.2 := by
  rw [PatternFits]
  split
  · rw [exists_front_iff, List.length_dropLast, Nat.sub_le_iff_le_add]
  · rw [List.forall₂_iff_zip]
    exact and_congr_right fun _ => ⟨fun pairs pair => @pairs pair.1 pair.2, fun pairs a b => pairs (a, b)⟩

/-- A `*` ends the pattern, the path has another number of segments, and one in front of the `*`
does not fit. -/
def Unchecked (parts values : List CString) : Prop :=
  parts.getLast? = some wildcard ∧ parts.length ≠ values.length ∧ parts.length ≤ values.length + 1 ∧
    ∃ pair ∈ parts.dropLast.zip values, ¬ PartFits pair.1 pair.2

/-- A `*` inside the pattern stands at another segment than `*`, and all other segments fit. -/
def InnerWildcard (parts values : List CString) : Prop :=
  parts.length = values.length ∧ (∀ pair ∈ parts.zip values, Meets pair.1 pair.2) ∧
    ∃ pair ∈ parts.dropLast.zip values, pair.1 = wildcard ∧ pair.2 ≠ wildcard

/-- A name that is repeated stands at one and the same segment. -/
def NamesAgree (parts values : List CString) : Prop :=
  ∀ name value value', (colon :: name, value) ∈ parts.zip values →
    (colon :: name, value') ∈ parts.zip values → value = value'

variable {value : CString} {parts values : List CString}

theorem Meets.partFits {part : CString} (meets : Meets part value) (notWildcard : part ≠ wildcard) :
    PartFits part value :=
  meets.imp_right fun others => others.resolve_left notWildcard

theorem PartFits.meets {part : CString} (fits : PartFits part value) : Meets part value :=
  fits.imp_right Or.inr

theorem partFits_wildcard : PartFits wildcard value ↔ wildcard = value :=
  or_iff_right (by decide)

theorem PatternFits.fitsPacked (fits : PatternFits parts values) : FitsPacked parts values := by
  rw [patternFits_iff] at fits
  rw [FitsPacked, meetAll_iff]
  split at fits
  next isWildcard =>
    by_cases same : parts.length = values.length
    · rw [if_pos same]
      intro pair member
      rcases mem_dropLast_zip_or member with inFront | isLast
      · exact (fits.2 pair inFront).meets
      · rw [isWildcard] at isLast
        exact Or.inr (Or.inl (Option.some.inj isLast).symm)
    · rw [if_neg same]
      exact ⟨isWildcard, fits.1⟩
  next notWildcard =>
    rw [if_pos fits.1]
    exact fun pair member => (fits.2 pair member).meets

/-- What is matched is said by the pattern, unless segments are not looked at. -/
theorem fitsPacked_cases (fits : FitsPacked parts values) :
    PatternFits parts values ∨ Unchecked parts values ∨ InnerWildcard parts values := by
  rw [FitsPacked, meetAll_iff] at fits
  rw [patternFits_iff, or_iff_not_imp_left]
  intro notSaid
  split at fits
  next same =>
    refine Or.inr ⟨same, fits, ?_⟩
    by_contra noInner
    have inFront : ∀ pair ∈ parts.dropLast.zip values, PartFits pair.1 pair.2 := by
      intro pair member
      by_cases isWildcard : pair.1 = wildcard
      · have isSame : pair.2 = wildcard := not_not.mp fun other => noInner ⟨pair, member, isWildcard, other⟩
        exact Or.inr (isWildcard.trans isSame.symm)
      · exact (fits pair (mem_zip_dropLast member)).partFits isWildcard
    apply notSaid
    split
    next => exact ⟨by omega, inFront⟩
    next notLast =>
      refine ⟨same, fun pair member => ?_⟩
      rcases mem_dropLast_zip_or member with isInFront | isLast
      · exact inFront pair isInFront
      · exact (fits pair member).partFits fun isWildcard => notLast (isWildcard ▸ isLast)
  next differ =>
    rw [if_pos fits.1] at notSaid
    refine Or.inl ⟨fits.1, differ, fits.2, ?_⟩
    by_contra none
    exact notSaid ⟨fits.2, fun pair member => not_not.mp fun misfit => none ⟨pair, member, misfit⟩⟩

theorem Unchecked.notSaid (unchecked : Unchecked parts values) :
    FitsPacked parts values ∧ ¬ PatternFits parts values := by
  rcases unchecked with ⟨isWildcard, differ, within, pair, member, misfit⟩
  rw [FitsPacked, if_neg differ, patternFits_iff, if_pos isWildcard]
  exact ⟨⟨isWildcard, within⟩, fun said => misfit (said.2 pair member)⟩

theorem InnerWildcard.notSaid (inner : InnerWildcard parts values) :
    FitsPacked parts values ∧ ¬ PatternFits parts values := by
  rcases inner with ⟨same, meets, pair, member, isWildcard, other⟩
  have misfit : ¬ PartFits pair.1 pair.2 := by
    rw [isWildcard, partFits_wildcard]
    exact fun isSame => other isSame.symm
  rw [FitsPacked, if_pos same, meetAll_iff, patternFits_iff]
  refine ⟨meets, ?_⟩
  split
  · exact fun said => misfit (said.2 pair member)
  · exact fun said => misfit (said.2 pair (mem_zip_dropLast member))

theorem mem_boundPacked_iff {name : CString} :
    (name, value) ∈ boundPacked parts values ↔ (colon :: name, value) ∈ parts.zip values := by
  induction parts generalizing values with
  | nil => exact iff_of_false List.not_mem_nil List.not_mem_nil
  | cons part parts ih =>
      cases values with
      | nil => exact iff_of_false List.not_mem_nil List.not_mem_nil
      | cons first values =>
          rw [boundPacked, List.zip_cons_cons, List.mem_cons, Prod.mk.injEq]
          cases part with
          | nil => rw [if_neg (by decide), ih]; simp
          | cons c part =>
              by_cases isColon : c = colon
              · subst isColon
                have starts : startsWith (colon :: part) colon := beq_self_eq_true (some colon)
                rw [if_pos starts, List.mem_cons, Prod.mk.injEq, ih, List.cons_eq_cons,
                  List.tail_cons]
                simp
              · have noName : ¬ startsWith (c :: part) colon :=
                  fun starts => isColon (Option.some.inj (beq_iff_eq.mp starts))
                rw [if_neg noName, ih, List.cons_eq_cons]
                simp [Ne.symm isColon]

theorem setAll_of_bound {bound : List (CString × CString)} {key : CString}
    (isBound : key ∈ bound.map Prod.fst) (params : StringMap) :
    ∃ value, params.setAll bound key = some value ∧ (key, value) ∈ bound := by
  induction bound generalizing params with
  | nil => exact absurd isBound List.not_mem_nil
  | cons binding bound ih =>
      by_cases later : key ∈ bound.map Prod.fst
      · rcases ih later (params.set binding.1 binding.2) with ⟨value, isSet, member⟩
        exact ⟨value, isSet, List.mem_cons_of_mem _ member⟩
      · have isFirst := (List.mem_cons.mp isBound).resolve_right later
        subst isFirst
        exact ⟨binding.2, (setAll_of_not_mem later).trans (if_pos rfl), List.mem_cons_self⟩

theorem bindsNames_iff (pattern path : CString) :
    BindsNames pattern path ↔ NamesAgree (packed (segments pattern)) (packed (segments path)) := by
  rw [BindsNames, NamesAgree, extractParams_eq]
  constructor
  · intro binds name value value' member member'
    exact Option.some.inj ((binds name value member).symm.trans (binds name value' member'))
  · intro agree name value member
    have isBound := mem_boundPacked_iff.mpr member
    rcases setAll_of_bound (List.mem_map_of_mem (f := Prod.fst) isBound) StringMap.new with
      ⟨value', isSet, isBound'⟩
    rw [isSet, agree name value value' member (mem_boundPacked_iff.mp isBound')]

/-- A pattern means what it says for a path unless segments are not looked at, or the path fits and
a name is repeated at different segments. -/
theorem meansPattern_iff (pattern path : CString) : MeansPattern pattern path ↔
    ¬ Unchecked (packed (segments pattern)) (packed (segments path)) ∧
      ¬ InnerWildcard (packed (segments pattern)) (packed (segments path)) ∧
      (PatternFits (packed (segments pattern)) (packed (segments path)) →
        NamesAgree (packed (segments pattern)) (packed (segments path))) := by
  rw [MeansPattern, bindsNames_iff, routeMatcherMatches_iff]
  constructor
  · rintro ⟨answers, binds⟩
    refine ⟨fun unchecked => ?_, fun inner => ?_, fun fits => binds fits.fitsPacked⟩
    · exact unchecked.notSaid.2 (answers.mp unchecked.notSaid.1)
    · exact inner.notSaid.2 (answers.mp inner.notSaid.1)
  · rintro ⟨checked, noInner, agree⟩
    have said (fits : FitsPacked (packed (segments pattern)) (packed (segments path))) :
        PatternFits (packed (segments pattern)) (packed (segments path)) :=
      (fitsPacked_cases fits).resolve_right (not_or.mpr ⟨checked, noInner⟩)
    exact ⟨⟨said, PatternFits.fitsPacked⟩, fun fits => agree (said fits)⟩

/-- Below a `*` the segments in front of it are not looked at. -/
theorem staticFiles_notMeans :
    ¬ MeansPattern (literal "/static/*") (literal "/admin/secret/keys") := by
  rintro ⟨answers, -⟩
  have isPattern : packed (segments (literal "/static/*")) = [literal "static", wildcard] := by
    decide
  have isPath : packed (segments (literal "/admin/secret/keys")) =
      [literal "admin", literal "secret", literal "keys"] := by decide
  have misfit : ¬ PartFits (literal "static") (literal "admin") :=
    fun fits => fits.elim (by decide) (by decide)
  have unchecked : Unchecked (packed (segments (literal "/static/*")))
      (packed (segments (literal "/admin/secret/keys"))) := by
    rw [isPattern, isPath]
    exact ⟨rfl, by decide, by decide, (literal "static", literal "admin"), List.mem_cons_self, misfit⟩
  exact unchecked.notSaid.2 (answers.mp (by decide))

end Tinox.Net
