import Mathlib.Data.List.TakeWhile
import Tinox.Runtime.JsonWriter

/-!
# Routes

The two matchers of request paths against route patterns: `route_matches` of the runtime
walks both strings byte by byte, `RouteMatcher` compares lists of segments.
-/

namespace Tinox.Net

open Tinox.Runtime

/-- The byte `/`. -/
def slash : UInt8 := 47

/-- The byte `:`. -/
def colon : UInt8 := 58

/-- The segment `*`. -/
def wildcard : CString := [42]

/-- A `Map<String, String>`: what is set for a key. -/
abbrev StringMap := CString → Option CString

namespace StringMap

def new : StringMap :=
  fun _ => none

def set (params : StringMap) (name value : CString) : StringMap :=
  fun key => if key = name then some value else params key

end StringMap

/-- `route_matches`.  It may have set parameters when it fails. -/
def routeMatches (pattern path : CString) (params : StringMap) : Bool × StringMap :=
  match pattern, path with
  | c :: pattern, d :: path =>
      if c = colon then
        routeMatches (pattern.dropWhile (· != slash)) ((d :: path).dropWhile (· != slash))
          (params.set (pattern.takeWhile (· != slash)) ((d :: path).takeWhile (· != slash)))
      else if c = d then routeMatches pattern path params
      else (false, params)
  | pattern, path =>
      -- trailing slashes on either side are skipped
      ((pattern.dropWhile (· == slash)).isEmpty && (path.dropWhile (· == slash)).isEmpty, params)
termination_by pattern.length
decreasing_by
  · exact Nat.lt_succ_of_le (List.length_dropWhile_le _ _)
  · exact Nat.lt_succ_self _

/-- The loop of `RouteMatcher.splitPath`. -/
def splitPathLoop : CString → List CString → CString → List CString
  | [], parts, current => if current.length > 0 then parts ++ [current] else parts
  | ch :: path, parts, current =>
      if ch = slash then
        if current.length > 0 then splitPathLoop path (parts ++ [current]) []
        else splitPathLoop path parts current
      else splitPathLoop path parts (current ++ [ch])

/-- `RouteMatcher.splitPath`. -/
def splitPath (path : CString) : List CString :=
  splitPathLoop path [] []

/-- `String.startsWith`, for one character. -/
def startsWith (part : CString) (ch : UInt8) : Bool :=
  part.head? == some ch

/-- The loop of `RouteMatcher.matches`, over as many parts of the one as of the other. -/
def partsMatch : List CString → List CString → Bool
  | pPart :: patternParts, pathPart :: pathParts =>
      if startsWith pPart colon || pPart == wildcard then partsMatch patternParts pathParts
      else if pPart != pathPart then false
      else partsMatch patternParts pathParts
  | _, _ => true

/-- `RouteMatcher.matches`. -/
def routeMatcherMatches (pattern path : CString) : Bool :=
  let patternParts := splitPath pattern
  let pathParts := splitPath path
  if patternParts.length ≠ pathParts.length then
    -- a final `*` is enough: the parts before it are not compared
    if patternParts.getLast? = some wildcard then
      decide (patternParts.length - 1 ≤ pathParts.length)
    else false
  else partsMatch patternParts pathParts

/-- The loop of `RouteMatcher.extractParams`. -/
def extractParamsLoop : List CString → List CString → StringMap → StringMap
  | pPart :: patternParts, pathPart :: pathParts, params =>
      if startsWith pPart colon then
        extractParamsLoop patternParts pathParts (params.set pPart.tail pathPart)
      else extractParamsLoop patternParts pathParts params
  | _, _, params => params

/-- `RouteMatcher.extractParams`. -/
def extractParams (pattern path : CString) : StringMap :=
  extractParamsLoop (splitPath pattern) (splitPath path) StringMap.new

/-- The two matchers give one answer, and one map of parameters when they match. -/
def RoutesAlike (pattern path : CString) : Prop :=
  (routeMatches pattern path StringMap.new).1 = routeMatcherMatches pattern path ∧
    (routeMatcherMatches pattern path →
      (routeMatches pattern path StringMap.new).2 = extractParams pattern path)

/-- A path below a `*` is served by one matcher only. -/
theorem wildcard_notAlike : ¬ RoutesAlike (literal "/static/*") (literal "/static/app.css") := by
  intro alike
  exact absurd alike.1 (by with_unfolding_all decide)

/-- The segments of a path, the empty ones included. -/
def segments (path : CString) : List CString :=
  path.splitOn slash

variable {c : UInt8} {part : CString}

theorem segments_slash (path : CString) : segments (slash :: path) = [] :: segments path := by
  rw [segments, List.splitOn, List.splitOnP_cons_eq_if_modifyHead, if_pos (beq_self_eq_true slash)]
  rfl

theorem segments_cons (notSlash : c ≠ slash) (path : CString) :
    ∃ part parts, segments path = part :: parts ∧ segments (c :: path) = (c :: part) :: parts := by
  have notEmpty : segments path ≠ [] := List.splitOnP_ne_nil _ _
  rcases List.exists_cons_of_ne_nil notEmpty with ⟨part, parts, isSplit⟩
  refine ⟨part, parts, isSplit, ?_⟩
  have isOther : ¬ ((c == slash) = true) := fun same => notSlash (beq_iff_eq.mp same)
  rw [segments, List.splitOn, List.splitOnP_cons_eq_if_modifyHead, if_neg isOther]
  change List.modifyHead (c :: ·) (segments path) = _
  rw [isSplit]
  rfl

theorem segments_first (path : CString) :
    ∃ parts, segments path = path.takeWhile (· != slash) :: parts ∧
      segments (path.dropWhile (· != slash)) = [] :: parts ∧
      (parts = [] → path.dropWhile (· != slash) = []) := by
  induction path with
  | nil => exact ⟨[], rfl, rfl, fun _ => rfl⟩
  | cons c path ih =>
      by_cases isSlash : c = slash
      · subst isSlash
        have stops : (slash != slash) = false := rfl
        refine ⟨segments path, ?_, ?_, ?_⟩
        · rw [segments_slash, List.takeWhile_cons, stops]
          rfl
        · rw [List.dropWhile_cons, stops]
          exact segments_slash path
        · exact fun empty => absurd empty (List.splitOnP_ne_nil _ _)
      · rcases segments_cons isSlash path with ⟨part, parts, isSplit, isSplit'⟩
        rcases ih with ⟨parts', isFirst, isRest, isLast⟩
        have goesOn : (c != slash) = true := bne_iff_ne.mpr isSlash
        rw [isSplit] at isFirst
        cases isFirst
        refine ⟨parts, ?_, ?_, ?_⟩
        · rw [isSplit', List.takeWhile_cons, goesOn]
          rfl
        · rw [List.dropWhile_cons, goesOn]
          exact isRest
        · rw [List.dropWhile_cons, goesOn]
          exact isLast

theorem dropWhile_slash_isEmpty (path : CString) :
    (path.dropWhile (· == slash)).isEmpty ↔ ∀ part ∈ segments path, part = [] := by
  induction path with
  | nil =>
      constructor
      · intro _ part member
        exact List.mem_singleton.mp member
      · exact fun _ => rfl
  | cons c path ih =>
      by_cases isSlash : c = slash
      · subst isSlash
        rw [segments_slash, List.dropWhile_cons, if_pos (beq_self_eq_true slash), ih,
          List.forall_mem_cons]
        exact ⟨fun empty => ⟨rfl, empty⟩, And.right⟩
      · rcases segments_cons isSlash path with ⟨part, parts, -, isSplit⟩
        have isOther : ¬ ((c == slash) = true) := fun same => isSlash (beq_iff_eq.mp same)
        rw [isSplit, List.dropWhile_cons, if_neg isOther, List.forall_mem_cons]
        constructor
        · exact fun empty => absurd empty (by simp)
        · exact fun empty => absurd empty.1 (List.cons_ne_nil _ _)

/-- The segments that are not empty. -/
def packed (parts : List CString) : List CString :=
  parts.filter (!·.isEmpty)

theorem packed_nil (parts : List CString) : packed ([] :: parts) = packed parts := rfl

theorem packed_cons (notEmpty : part ≠ []) (parts : List CString) :
    packed (part :: parts) = part :: packed parts := by
  rw [packed, List.filter_cons, if_pos]
  · rfl
  · rw [Bool.not_eq_true', List.isEmpty_eq_false_iff]
    exact notEmpty

theorem modifyHead_nil_append (parts : List CString) : parts.modifyHead ([] ++ ·) = parts := by
  cases parts <;> rfl

theorem splitPathLoop_eq (path : CString) (parts : List CString) (current : CString) :
    splitPathLoop path parts current =
      parts ++ packed ((segments path).modifyHead (current ++ ·)) := by
  induction path generalizing parts current with
  | nil =>
      change (if current.length > 0 then parts ++ [current] else parts) =
        parts ++ packed [current ++ []]
      rw [List.append_nil]
      cases current with
      | nil => exact (List.append_nil parts).symm
      | cons c current => rfl
  | cons c path ih =>
      rw [splitPathLoop]
      by_cases isSlash : c = slash
      · subst isSlash
        rw [if_pos rfl, ih, ih, modifyHead_nil_append, segments_slash, List.modifyHead_cons,
          List.append_nil]
        cases current with
        | nil =>
            rw [modifyHead_nil_append]
            rfl
        | cons d current =>
            rw [packed_cons (List.cons_ne_nil _ _), List.append_assoc]
            rfl
      · rcases segments_cons isSlash path with ⟨part, rest, isSplit, isSplit'⟩
        rw [if_neg isSlash, ih, isSplit, isSplit', List.modifyHead_cons, List.modifyHead_cons,
          List.append_assoc]
        rfl

theorem splitPath_eq (path : CString) : splitPath path = packed (segments path) := by
  rw [splitPath, splitPathLoop_eq, modifyHead_nil_append]
  rfl

/-- What a segment of a pattern says before its first `:`. -/
def literalPart (part : CString) : CString :=
  part.takeWhile (· != colon)

/-- The name behind the first `:` of a segment. -/
def paramName (part : CString) : CString :=
  (part.dropWhile (· != colon)).tail

/-- A segment of a pattern stands for a segment of a path.  A value may be empty if a slash
follows it. -/
def Stands (part value : CString) (last : Bool) : Prop :=
  if colon ∈ part then literalPart part <+: value ∧ (last → literalPart part ≠ value) else part = value

/-- A path fits a pattern segment by segment, empty segments included. -/
def FitsInPlace : List CString → List CString → Prop
  | [], values => ∀ value ∈ values, value = []
  | part :: parts, [] => ∀ empty ∈ part :: parts, empty = []
  | part :: parts, value :: values => Stands part value values.isEmpty ∧ FitsInPlace parts values

/-- What is bound when the segments are taken in place. -/
def boundInPlace : List CString → List CString → List (CString × CString)
  | part :: parts, value :: values =>
      if colon ∈ part then
        (paramName part, value.drop (literalPart part).length) :: boundInPlace parts values
      else boundInPlace parts values
  | _, _ => []

/-- The parameters that a list of bindings leaves. -/
def StringMap.setAll (params : StringMap) (bound : List (CString × CString)) : StringMap :=
  bound.foldl (fun params binding => params.set binding.1 binding.2) params

variable {value : CString} {last : Bool} {parts : List CString}

theorem stands_nil (last : Bool) : Stands [] [] last :=
  rfl

theorem stands_param {name : CString} (notEmpty : last → value ≠ []) :
    Stands (colon :: name) value last := by
  rw [Stands, if_pos List.mem_cons_self]
  exact ⟨List.nil_prefix, fun isLast empty => notEmpty isLast empty.symm⟩

theorem literalPart_cons (notColon : c ≠ colon) (part : CString) :
    literalPart (c :: part) = c :: literalPart part := by
  rw [literalPart, List.takeWhile_cons, if_pos (bne_iff_ne.mpr notColon)]
  rfl

theorem paramName_cons (notColon : c ≠ colon) (part : CString) :
    paramName (c :: part) = paramName part := by
  rw [paramName, List.dropWhile_cons, if_pos (bne_iff_ne.mpr notColon)]
  rfl

theorem colon_mem_cons (notColon : c ≠ colon) (part : CString) :
    colon ∈ c :: part ↔ colon ∈ part := by
  rw [List.mem_cons]
  exact or_iff_right fun same => notColon same.symm

theorem stands_cons (notColon : c ≠ colon) (part value : CString) (last : Bool) :
    Stands (c :: part) (c :: value) last ↔ Stands part value last := by
  simp only [Stands, colon_mem_cons notColon, literalPart_cons notColon, List.prefix_cons_inj,
    ne_eq, List.cons.injEq, true_and]

theorem not_stands (notColon : c ≠ colon) (differ : value.head? ≠ some c) :
    ¬ Stands (c :: part) value last := by
  rw [Stands]
  split
  · rintro ⟨⟨rest, isPrefix⟩, -⟩
    rw [literalPart_cons notColon] at isPrefix
    apply differ
    rw [← isPrefix]
    rfl
  · rintro rfl
    exact differ rfl

theorem not_stands_nil (notEmpty : value ≠ []) : ¬ Stands [] value last :=
  fun same => notEmpty same.symm

theorem stands_nil_iff (isLast : last) : Stands part [] last ↔ part = [] := by
  cases part with
  | nil => exact iff_of_true (stands_nil last) rfl
  | cons c part =>
      apply iff_of_false _ (List.cons_ne_nil c part)
      rw [Stands]
      split
      · rintro ⟨isPrefix, notEmpty⟩
        exact notEmpty isLast (List.prefix_nil.mp isPrefix)
      · exact List.cons_ne_nil c part

theorem fitsInPlace_nil (values : List CString) :
    FitsInPlace [[]] values ↔ ∀ value ∈ values, value = [] := by
  cases values with
  | nil => exact iff_of_true (fun _ member => List.mem_singleton.mp member) nofun
  | cons value values =>
      rw [List.forall_mem_cons]
      exact and_congr_left fun _ => eq_comm

theorem fitsInPlace_nil_right (parts : List CString) :
    FitsInPlace parts [[]] ↔ ∀ part ∈ parts, part = [] := by
  cases parts with
  | nil => exact iff_of_true (fun _ member => List.mem_singleton.mp member) nofun
  | cons part parts =>
      rw [List.forall_mem_cons, FitsInPlace, List.isEmpty_nil, stands_nil_iff rfl]
      apply and_congr_right
      intro _
      cases parts with
      | nil => exact iff_of_true nofun nofun
      | cons part parts => exact Iff.rfl

theorem boundInPlace_nil (values : List CString) : boundInPlace [[]] values = [] := by
  cases values <;> rfl

theorem boundInPlace_of_empty (empty : ∀ part ∈ parts, part = []) (values : List CString) :
    boundInPlace parts values = [] := by
  induction parts generalizing values with
  | nil => cases values <;> rfl
  | cons part parts ih =>
      rw [List.forall_mem_cons] at empty
      cases values with
      | nil => rfl
      | cons value values =>
          rw [boundInPlace, empty.1]
          exact ih empty.2 values

theorem fitsInPlace_nil_nil (parts values : List CString) :
    FitsInPlace ([] :: parts) ([] :: values) ↔ FitsInPlace parts values :=
  and_iff_right (stands_nil _)

theorem routeMatches_spec (pattern path : CString) (params : StringMap) :
    ((routeMatches pattern path params).1 ↔ FitsInPlace (segments pattern) (segments path)) ∧
      ((routeMatches pattern path params).1 → (routeMatches pattern path params).2 =
        params.setAll (boundInPlace (segments pattern) (segments path))) := by
  fun_induction routeMatches pattern path params with
  | case1 params pattern d path ih =>
      rcases segments_first pattern with ⟨parts, isFirst, isRest, -⟩
      rcases segments_first (d :: path) with ⟨values, isFirst', isRest', isLast⟩
      have isPattern : segments (colon :: pattern) =
          (colon :: pattern.takeWhile (· != slash)) :: parts := by
        rcases segments_cons (c := colon) (by decide) pattern with ⟨part, rest, isSplit, isSplit'⟩
        rw [isSplit] at isFirst
        cases isFirst
        exact isSplit'
      have stands : Stands (colon :: pattern.takeWhile (· != slash))
          ((d :: path).takeWhile (· != slash)) values.isEmpty := by
        apply stands_param
        intro isEnd noValue
        have isWhole := List.takeWhile_append_dropWhile (p := (· != slash)) (l := d :: path)
        rw [noValue, isLast (List.isEmpty_iff.mp isEnd)] at isWhole
        cases isWhole
      rw [isRest, isRest', fitsInPlace_nil_nil] at ih
      rw [isPattern, isFirst']
      constructor
      · rw [ih.1]
        exact (and_iff_right stands).symm
      · intro matched
        rw [ih.2 matched]
        rfl
  | case2 params pattern c path notColon ih =>
      by_cases isSlash : c = slash
      · subst isSlash
        rw [segments_slash, segments_slash, fitsInPlace_nil_nil]
        exact ih
      · rcases segments_cons isSlash pattern with ⟨part, parts, isSplit, isSplit'⟩
        rcases segments_cons isSlash path with ⟨value, values, isSplitPath, isSplitPath'⟩
        rw [isSplit, isSplitPath] at ih
        rw [isSplit', isSplitPath']
        constructor
        · rw [ih.1]
          exact and_congr_left fun _ => (stands_cons notColon part value _).symm
        · intro matched
          rw [ih.2 matched]
          simp only [boundInPlace, colon_mem_cons notColon, literalPart_cons notColon,
            paramName_cons notColon, List.length_cons, List.drop_succ_cons]
  | case3 params c pattern d path notColon differ =>
      have fails : ¬ FitsInPlace (segments (c :: pattern)) (segments (d :: path)) := by
        rcases segments_first (d :: path) with ⟨values, isFirst', -, -⟩
        rw [isFirst']
        by_cases isSlash : c = slash
        · subst isSlash
          have goesOn : (d != slash) = true := bne_iff_ne.mpr fun same => differ same.symm
          rw [segments_slash, List.takeWhile_cons, goesOn]
          exact fun fits => not_stands_nil (List.cons_ne_nil _ _) fits.1
        · rcases segments_cons isSlash pattern with ⟨part, parts, -, isSplit⟩
          rw [isSplit]
          refine fun fits => not_stands notColon ?_ fits.1
          rw [List.takeWhile_cons]
          split
          · exact fun same => differ (Option.some.inj same).symm
          · exact nofun
      exact ⟨⟨nofun, fun fits => absurd fits fails⟩, nofun⟩
  | case4 params pattern path isEnd =>
      rw [Bool.and_eq_true, dropWhile_slash_isEmpty, dropWhile_slash_isEmpty]
      have isNil : segments [] = [[]] := rfl
      cases pattern with
      | nil =>
          rw [isNil, fitsInPlace_nil, boundInPlace_nil]
          exact ⟨and_iff_right fun _ => List.mem_singleton.mp, fun _ => rfl⟩
      | cons c pattern =>
          cases path with
          | nil =>
              rw [isNil, fitsInPlace_nil_right]
              constructor
              · exact and_iff_left fun _ => List.mem_singleton.mp
              · intro empty
                rw [boundInPlace_of_empty empty.1]
                rfl
          | cons d path => exact (isEnd c pattern d path rfl rfl).elim

/-- `RouteMatcher` lets a segment of a pattern meet a segment of a path. -/
def Meets (part value : CString) : Prop :=
  startsWith part colon ∨ part = wildcard ∨ part = value

/-- The segments meet as far as both go. -/
def MeetAll : List CString → List CString → Prop
  | part :: parts, value :: values => Meets part value ∧ MeetAll parts values
  | _, _ => True

/-- A path fits a pattern, as lists of segments that are not empty. -/
def FitsPacked (parts values : List CString) : Prop :=
  if parts.length = values.length then MeetAll parts values
  else parts.getLast? = some wildcard ∧ parts.length ≤ values.length + 1

/-- What is bound when the segments are taken without the empty ones. -/
def boundPacked : List CString → List CString → List (CString × CString)
  | part :: parts, value :: values =>
      if startsWith part colon then (part.tail, value) :: boundPacked parts values
      else boundPacked parts values
  | _, _ => []

theorem partsMatch_iff (parts values : List CString) :
    partsMatch parts values ↔ MeetAll parts values := by
  fun_induction partsMatch parts values with
  | case1 part parts value values meets ih =>
      rw [Bool.or_eq_true, beq_iff_eq] at meets
      rw [ih, MeetAll]
      exact (and_iff_right (meets.imp_right Or.inl)).symm
  | case2 part parts value values other differ =>
      rw [Bool.or_eq_true, beq_iff_eq] at other
      rw [MeetAll, Meets]
      have notEqual := bne_iff_ne.mp differ
      exact iff_of_false nofun fun meets => meets.1.elim (fun starts => other (Or.inl starts))
        fun same => same.elim (fun star => other (Or.inr star)) notEqual
  | case3 part parts value values other same ih =>
      rw [ih, MeetAll]
      have isEqual : part = value := not_not.mp fun differ => same (bne_iff_ne.mpr differ)
      exact (and_iff_right (Or.inr (Or.inr isEqual))).symm
  | case4 parts values isEnd =>
      cases parts with
      | nil => exact iff_of_true rfl trivial
      | cons part parts =>
          cases values with
          | nil => exact iff_of_true rfl trivial
          | cons value values => exact (isEnd part parts value values rfl rfl).elim

theorem routeMatcherMatches_iff (pattern path : CString) : routeMatcherMatches pattern path ↔
    FitsPacked (packed (segments pattern)) (packed (segments path)) := by
  rw [routeMatcherMatches, splitPath_eq, splitPath_eq, FitsPacked]
  by_cases same : (packed (segments pattern)).length = (packed (segments path)).length
  · rw [if_neg (not_not.mpr same), if_pos same]
    exact partsMatch_iff _ _
  · rw [if_pos same, if_neg same]
    by_cases isWildcard : (packed (segments pattern)).getLast? = some wildcard
    · rw [if_pos isWildcard, decide_eq_true_eq, Nat.sub_le_iff_le_add]
      exact (and_iff_right isWildcard).symm
    · rw [if_neg isWildcard]
      exact iff_of_false nofun fun fits => isWildcard fits.1

theorem extractParamsLoop_eq (parts values : List CString) (params : StringMap) :
    extractParamsLoop parts values params = params.setAll (boundPacked parts values) := by
  fun_induction extractParamsLoop parts values params with
  | case1 part parts value values params starts ih =>
      rw [ih, boundPacked, if_pos starts]
      rfl
  | case2 part parts value values params other ih => rw [ih, boundPacked, if_neg other]
  | case3 parts values params isEnd =>
      cases parts with
      | nil => rfl
      | cons part parts =>
          cases values with
          | nil => rfl
          | cons value values => exact (isEnd part parts value values rfl rfl).elim

theorem extractParams_eq (pattern path : CString) : extractParams pattern path =
    StringMap.new.setAll (boundPacked (packed (segments pattern)) (packed (segments path))) := by
  rw [extractParams, splitPath_eq, splitPath_eq, extractParamsLoop_eq]

/-- Two lists of segments have their empty segments at the same places, up to the end. -/
def SameSlashes : List CString → List CString → Prop
  | [], values => ∀ value ∈ values, value = []
  | part :: parts, [] => ∀ empty ∈ part :: parts, empty = []
  | part :: parts, value :: values => (part = [] ↔ value = []) ∧ SameSlashes parts values

/-- The two readings of a pattern are the same for a path: slashes stand at the same places, a `:`
stands only in front, and `*` meets itself only. -/
structure Regular (parts values : List CString) : Prop where
  slashes : SameSlashes parts values
  colons : ∀ part ∈ parts, colon ∈ part → startsWith part colon
  wildcards : ∀ pair ∈ parts.zip values, pair.1 = wildcard → pair.2 = wildcard

/-- The names of the parameters of a pattern. -/
def names (parts : List CString) : List CString :=
  (parts.filter (colon ∈ ·)).map paramName

/-- When the matchers agree: a path that fits by either reading is regular, unless a pattern
repeats a name and its last values are the same by both readings. -/
def AlikeWhen (parts values : List CString) : Prop :=
  FitsInPlace parts values ∨ FitsPacked (packed parts) (packed values) →
    Regular parts values ∨
      ¬ (names parts).Nodup ∧ FitsInPlace parts values ∧ FitsPacked (packed parts) (packed values) ∧
        StringMap.new.setAll (boundInPlace parts values) =
          StringMap.new.setAll (boundPacked (packed parts) (packed values))

variable {values : List CString}

theorem packed_of_empty (empty : ∀ part ∈ parts, part = []) : packed parts = [] := by
  rw [packed, List.filter_eq_nil_iff]
  intro part member
  rw [empty part member]
  exact Bool.false_ne_true

theorem literalPart_of_startsWith (starts : startsWith part colon) :
    literalPart part = [] ∧ paramName part = part.tail := by
  cases part with
  | nil => exact ⟨rfl, rfl⟩
  | cons c part =>
      rcases Option.some.inj (beq_iff_eq.mp starts)
      exact ⟨rfl, rfl⟩

theorem colon_mem_of_startsWith (starts : startsWith part colon) : colon ∈ part :=
  List.mem_of_head? (beq_iff_eq.mp starts)

theorem Regular.tail (regular : Regular (part :: parts) (value :: values)) : Regular parts values :=
  ⟨regular.slashes.2, fun part member => regular.colons part (List.mem_cons_of_mem _ member),
    fun pair member => regular.wildcards pair (List.mem_cons_of_mem _ member)⟩

theorem Regular.length_eq (regular : Regular parts values) :
    (packed parts).length = (packed values).length := by
  induction parts generalizing values with
  | nil => rw [packed_of_empty regular.slashes]; rfl
  | cons part parts ih =>
      cases values with
      | nil => rw [packed_of_empty regular.slashes]; rfl
      | cons value values =>
          by_cases empty : part = []
          · rw [empty, regular.slashes.1.mp empty, packed_nil, packed_nil]
            exact ih regular.tail
          · rw [packed_cons empty, packed_cons fun same => empty (regular.slashes.1.mpr same)]
            exact congrArg Nat.succ (ih regular.tail)

theorem Regular.stands_iff (regular : Regular (part :: parts) (value :: values))
    (notEmpty : part ≠ []) : Stands part value last ↔ Meets part value := by
  have valueNotEmpty : value ≠ [] := fun empty => notEmpty (regular.slashes.1.mpr empty)
  rw [Stands]
  split
  · next isParam =>
      have starts := regular.colons part List.mem_cons_self isParam
      rw [(literalPart_of_startsWith starts).1]
      exact iff_of_true ⟨List.nil_prefix, fun _ same => valueNotEmpty same.symm⟩ (Or.inl starts)
  · next isLiteral =>
      constructor
      · exact fun same => Or.inr (Or.inr same)
      · rintro (starts | isWildcard | same)
        · exact absurd (colon_mem_of_startsWith starts) isLiteral
        · rw [isWildcard]
          exact (regular.wildcards (part, value) List.mem_cons_self isWildcard).symm
        · exact same

theorem Regular.fits_iff (regular : Regular parts values) :
    FitsInPlace parts values ↔ MeetAll (packed parts) (packed values) := by
  induction parts generalizing values with
  | nil => exact iff_of_true regular.slashes trivial
  | cons part parts ih =>
      cases values with
      | nil =>
          rw [packed_of_empty regular.slashes]
          exact iff_of_true regular.slashes trivial
      | cons value values =>
          by_cases empty : part = []
          · have isEmpty := regular.slashes.1.mp empty
            subst empty isEmpty
            rw [fitsInPlace_nil_nil, packed_nil, packed_nil]
            exact ih regular.tail
          · rw [packed_cons empty, packed_cons fun same => empty (regular.slashes.1.mpr same)]
            exact and_congr (regular.stands_iff empty) (ih regular.tail)

theorem Regular.bound_eq (regular : Regular parts values) :
    boundInPlace parts values = boundPacked (packed parts) (packed values) := by
  induction parts generalizing values with
  | nil => rfl
  | cons part parts ih =>
      cases values with
      | nil => rw [packed_of_empty regular.slashes]; rfl
      | cons value values =>
          by_cases empty : part = []
          · have isEmpty := regular.slashes.1.mp empty
            subst empty isEmpty
            rw [packed_nil, packed_nil]
            exact ih regular.tail
          · rw [packed_cons empty, packed_cons fun same => empty (regular.slashes.1.mpr same),
              boundInPlace, boundPacked, ih regular.tail]
            by_cases starts : startsWith part colon
            · rw [if_pos starts, if_pos (colon_mem_of_startsWith starts),
                (literalPart_of_startsWith starts).1, (literalPart_of_startsWith starts).2]
              rfl
            · rw [if_neg starts, if_neg]
              exact fun isParam => starts (regular.colons part List.mem_cons_self isParam)

variable {params : StringMap} {key : CString}

theorem mem_of_setAll {bound : List (CString × CString)}
    (isSet : params.setAll bound key = some value) :
    (key, value) ∈ bound ∨ params key = some value := by
  induction bound generalizing params with
  | nil => exact Or.inr isSet
  | cons binding bound ih =>
      rcases ih isSet with later | before
      · exact Or.inl (List.mem_cons_of_mem _ later)
      · change (if key = binding.1 then some binding.2 else params key) = some value at before
        split at before
        · next isKey =>
            cases before
            exact Or.inl (isKey ▸ List.mem_cons_self)
        · exact Or.inr before

theorem setAll_of_not_mem {bound : List (CString × CString)} (notMem : key ∉ bound.map Prod.fst) :
    params.setAll bound key = params key := by
  induction bound generalizing params with
  | nil => rfl
  | cons binding bound ih =>
      rw [List.map_cons, List.mem_cons, not_or] at notMem
      exact (ih notMem.2).trans (if_neg notMem.1)

theorem setAll_of_mem {bound : List (CString × CString)} (once : (bound.map Prod.fst).Nodup)
    (member : (key, value) ∈ bound) : params.setAll bound key = some value := by
  induction bound generalizing params with
  | nil => exact absurd member List.not_mem_nil
  | cons binding bound ih =>
      rw [List.map_cons, List.nodup_cons] at once
      rcases List.mem_cons.mp member with rfl | later
      · exact (setAll_of_not_mem once.1).trans (if_pos rfl)
      · exact ih once.2 later

theorem boundInPlace_sublist (parts values : List CString) :
    List.Sublist ((boundInPlace parts values).map Prod.fst) (names parts) := by
  induction parts generalizing values with
  | nil => exact List.Sublist.refl []
  | cons part parts ih =>
      cases values with
      | nil => exact List.nil_sublist _
      | cons value values =>
          rw [boundInPlace, names, List.filter_cons]
          by_cases isParam : colon ∈ part
          · rw [if_pos isParam, if_pos (decide_eq_true isParam), List.map_cons, List.map_cons]
            exact (ih values).cons_cons _
          · rw [if_neg isParam, if_neg fun isTrue => isParam (of_decide_eq_true isTrue)]
            exact ih values

theorem FitsInPlace.bound (fits : FitsInPlace parts values) (member : part ∈ parts)
    (isParam : colon ∈ part) : ∃ value, (paramName part, value) ∈ boundInPlace parts values := by
  have notEmpty : part ≠ [] := List.ne_nil_of_mem isParam
  induction parts generalizing values with
  | nil => exact absurd member List.not_mem_nil
  | cons first parts ih =>
      cases values with
      | nil => exact absurd (fits part member) notEmpty
      | cons value values =>
          rw [boundInPlace]
          rcases List.mem_cons.mp member with rfl | later
          · rw [if_pos isParam]
            exact ⟨_, List.mem_cons_self⟩
          · rcases ih fits.2 later with ⟨value', isBound⟩
            refine ⟨value', ?_⟩
            split
            · exact List.mem_cons_of_mem _ isBound
            · exact isBound

theorem FitsInPlace.slashes (fits : FitsInPlace parts values)
    (notEmpty : ∀ binding ∈ boundInPlace parts values, binding.2 ≠ []) :
    SameSlashes parts values := by
  induction parts generalizing values with
  | nil => exact fits
  | cons part parts ih =>
      cases values with
      | nil => exact fits
      | cons value values =>
          rcases fits with ⟨stands, fits⟩
          rw [boundInPlace] at notEmpty
          rw [Stands] at stands
          split at stands
          · next isParam =>
              rw [if_pos isParam, List.forall_mem_cons] at notEmpty
              have valueNotEmpty : value ≠ [] := by
                rintro rfl
                exact notEmpty.1 List.drop_nil
              exact ⟨iff_of_false (List.ne_nil_of_mem isParam) valueNotEmpty, ih fits notEmpty.2⟩
          · next isLiteral =>
              rw [if_neg isLiteral] at notEmpty
              exact ⟨by rw [stands], ih fits notEmpty⟩

theorem FitsInPlace.wildcards (fits : FitsInPlace parts values) :
    ∀ pair ∈ parts.zip values, pair.1 = wildcard → pair.2 = wildcard := by
  induction parts generalizing values with
  | nil => exact nofun
  | cons part parts ih =>
      cases values with
      | nil => exact nofun
      | cons value values =>
          rw [List.zip_cons_cons, List.forall_mem_cons]
          refine ⟨?_, ih fits.2⟩
          rintro rfl
          exact Eq.symm fits.1

theorem mem_boundPacked {name : CString} (member : (name, value) ∈ boundPacked parts values) :
    (∃ part ∈ parts, startsWith part colon ∧ part.tail = name) ∧ value ∈ values := by
  induction parts generalizing values with
  | nil => exact absurd member List.not_mem_nil
  | cons part parts ih =>
      cases values with
      | nil => exact absurd member List.not_mem_nil
      | cons first values =>
          have later (isLater : (name, value) ∈ boundPacked parts values) := ih isLater
          rw [boundPacked] at member
          split at member
          · next starts =>
              rcases List.mem_cons.mp member with isFirst | isLater
              · cases isFirst
                exact ⟨⟨part, List.mem_cons_self, starts, rfl⟩, List.mem_cons_self⟩
              · rcases later isLater with ⟨⟨part', isPart, isName⟩, isValue⟩
                exact ⟨⟨part', List.mem_cons_of_mem _ isPart, isName⟩, List.mem_cons_of_mem _ isValue⟩
          · rcases later member with ⟨⟨part', isPart, isName⟩, isValue⟩
            exact ⟨⟨part', List.mem_cons_of_mem _ isPart, isName⟩, List.mem_cons_of_mem _ isValue⟩

/-- A path is regular when both readings bind the same and no name is repeated. -/
theorem regular_of_same (fits : FitsInPlace parts values) (once : (names parts).Nodup)
    (same : StringMap.new.setAll (boundInPlace parts values) = StringMap.new.setAll (boundPacked (packed parts) (packed values))) :
    Regular parts values := by
  have isPacked {binding : CString × CString} (isBound : binding ∈ boundInPlace parts values) :
      binding ∈ boundPacked (packed parts) (packed values) := by
    have isSet : StringMap.new.setAll (boundInPlace parts values) binding.1 = some binding.2 :=
      setAll_of_mem ((boundInPlace_sublist parts values).nodup once) isBound
    rw [same] at isSet
    exact (mem_of_setAll isSet).resolve_right nofun
  constructor
  · apply fits.slashes
    intro binding isBound
    have notEmpty := (List.mem_filter.mp (mem_boundPacked (isPacked isBound)).2).2
    rw [Bool.not_eq_true', List.isEmpty_eq_false_iff] at notEmpty
    exact notEmpty
  · intro part member isParam
    rcases fits.bound member isParam with ⟨value, isBound⟩
    rcases mem_boundPacked (isPacked isBound) with ⟨⟨part', isPart, starts, isName⟩, -⟩
    have member' : part' ∈ parts := List.mem_of_mem_filter isPart
    rw [← (literalPart_of_startsWith starts).2] at isName
    -- two segments with one name are one segment
    have isSame : part' = part := List.inj_on_of_nodup_map once
      (List.mem_filter.mpr ⟨member', decide_eq_true (colon_mem_of_startsWith starts)⟩)
      (List.mem_filter.mpr ⟨member, decide_eq_true isParam⟩) isName
    rw [← isSame]
    exact starts
  · exact fits.wildcards

theorem AlikeWhen.alike {pattern path : CString}
    (condition : AlikeWhen (segments pattern) (segments path)) : RoutesAlike pattern path := by
  have inPlace := routeMatches_spec pattern path StringMap.new
  rw [RoutesAlike, extractParams_eq, Bool.eq_iff_iff, inPlace.1, routeMatcherMatches_iff]
  by_cases fits : FitsInPlace (segments pattern) (segments path) ∨
      FitsPacked (packed (segments pattern)) (packed (segments path))
  · rcases condition fits with regular | ⟨-, fitsInPlace, fitsPacked, same⟩
    · have answers : FitsInPlace (segments pattern) (segments path) ↔
          FitsPacked (packed (segments pattern)) (packed (segments path)) := by
        rw [FitsPacked, if_pos regular.length_eq]
        exact regular.fits_iff
      refine ⟨answers, fun fitsPacked => ?_⟩
      rw [inPlace.2 (inPlace.1.mpr (answers.mpr fitsPacked)), regular.bound_eq]
    · refine ⟨iff_of_true fitsInPlace fitsPacked, fun _ => ?_⟩
      rw [inPlace.2 (inPlace.1.mpr fitsInPlace), same]
  · rw [not_or] at fits
    exact ⟨iff_of_false fits.1 fits.2, fun fitsPacked => absurd fitsPacked fits.2⟩

/-- The exact condition under which both matchers route alike. -/
theorem routesAlike_iff (pattern path : CString) :
    RoutesAlike pattern path ↔ AlikeWhen (segments pattern) (segments path) := by
  constructor
  · rintro ⟨answers, maps⟩ fits
    have inPlace := routeMatches_spec pattern path StringMap.new
    rw [extractParams_eq, routeMatcherMatches_iff] at maps
    rw [Bool.eq_iff_iff, inPlace.1, routeMatcherMatches_iff] at answers
    have fitsPacked := fits.elim answers.mp id
    have fitsInPlace := answers.mpr fitsPacked
    have same := maps fitsPacked
    rw [inPlace.2 (inPlace.1.mpr fitsInPlace)] at same
    by_cases once : (names (segments pattern)).Nodup
    · exact Or.inl (regular_of_same fitsInPlace once same)
    · exact Or.inr ⟨once, fitsInPlace, fitsPacked, same⟩
  · exact AlikeWhen.alike

/-- An entry of a route table. -/
structure Route (Handler : Type) where
  method : CString
  path : CString
  handler : Handler

variable {Handler : Type}

/-- The handler that `tinox_handle_one` looks up; the parameters are reset before each route. -/
def lookupRoute : List (Route Handler) → CString → CString → Option (Handler × StringMap)
  | [], _, _ => none
  | route :: routes, method, path =>
      if route.method = method then
        let result := routeMatches route.path path StringMap.new
        if result.1 then some (route.handler, result.2) else lookupRoute routes method path
      else lookupRoute routes method path

/-- `HttpServer.matchRoute`: the handler that is run, with the parameters it sees. -/
def matchRoute : List (Route Handler) → CString → CString → Option (Handler × StringMap)
  | [], _, _ => none
  | route :: routes, method, path =>
      if route.method = method && routeMatcherMatches route.path path then
        some (route.handler, extractParams route.path path)
      else matchRoute routes method path

end Tinox.Net
