import Tinox.Data.Entries
import Tinox.Check.Infer

/-!
# Unification of generic calls

`unify_param` collects what the types of the arguments say about type parameters, and what is said
first wins.  An instance of a parameter's type says what its type parameters stand for.
-/

namespace Tinox.Check

open Tinox.Syntax

mutual

/-- A type with other types for its type parameters. -/
def instantiate (params : List String) (s : String → ValueType) : ValueType → ValueType
  | .named name args =>
      if params.contains name then s name else .named name (instantiateAll params s args)
  | .array inner => .array (instantiate params s inner)
  | .map value => .map (instantiate params s value)
  | .nullable inner => .nullable (instantiate params s inner)
  | type => type

def instantiateAll (params : List String) (s : String → ValueType) : List ValueType → List ValueType
  | [] => []
  | arg :: args => instantiate params s arg :: instantiateAll params s args

end

mutual

/-- The type parameters that occur in a type: as this type, or below lists, maps, nullable types
and generic types. -/
def occurring (params : List String) : ValueType → List String
  | .named name args => if params.contains name then [name] else occurringAll params args
  | .array inner | .map inner | .nullable inner => occurring params inner
  | _ => []

def occurringAll (params : List String) : List ValueType → List String
  | [] => []
  | arg :: args => occurring params arg ++ occurringAll params args

end

mutual

/-- What the type of an argument says about type parameters, in the order of their places. -/
def said (params : List String) : ValueType → ValueType → Bindings
  | .named name args, arg =>
      if params.contains name then (if arg == .any then [] else [(name, arg)])
      else
        match arg with
        | .named other otherArgs => if name = other then saidAll params args otherArgs else []
        | _ => []
  | .array param, .array arg => said params param arg
  | .map param, .map arg => said params param arg
  | .nullable param, .nullable arg => said params param arg
  | .nullable param, arg => said params param arg
  | _, _ => []

def saidAll (params : List String) : List ValueType → List ValueType → Bindings
  | param :: rest, arg :: args => said params param arg ++ saidAll params rest args
  | _, _ => []

end

/-- The parameters of a method that the arguments of a call stand for: all of them, or all but the
receiver. -/
def aligned (declared argTypes : List ValueType) : List ValueType :=
  if argTypes.length = declared.length then declared
  else if argTypes.length + 1 = declared.length then declared.tail
  else []

/-- What a call says about the type parameters of a method: first by its type arguments, the last
one for each, and then by its arguments. -/
def saidByCall (params : List String) (declared argTypes : List ValueType) (explicit : List Ty) :
    Bindings :=
  (params.zip (explicit.map fromParserType)).reverse ++
    saidAll params (aligned declared argTypes) argTypes

/-- What a call determines for a type parameter. -/
def determined (params : List String) (declared argTypes : List ValueType) (explicit : List Ty)
    (param : String) : ValueType :=
  ((saidByCall params declared argTypes explicit).lookup param).getD (.named param [])

/-- Bindings of type parameters to what they stand for. -/
def AgreesWith (params : List String) (s : String → ValueType) (bindings : Bindings) : Prop :=
  ∀ param type, bindings.lookup param = some type → param ∈ params ∧ type = s param

/-- The type of an argument for a parameter: an instance of its type, or that of a value for a
nullable type. -/
inductive IsInstance (params : List String) (s : String → ValueType) :
    ValueType → ValueType → Prop where
  | same (param : ValueType) : IsInstance params s param (instantiate params s param)
  | widened {param arg : ValueType} (notNullable : ∀ inner, arg ≠ .nullable inner)
      (isInstance : IsInstance params s param arg) : IsInstance params s (.nullable param) arg

theorem lookup_bindNew (bindings : Bindings) (own name : String) (type : ValueType) :
    List.lookup name (if (bindings.lookup own).isSome then bindings else (own, type) :: bindings) =
      (bindings.lookup name).or (List.lookup name [(own, type)]) := by
  rw [List.lookup_cons, List.lookup_nil]
  by_cases isName : name = own
  · rw [isName, beq_self_eq_true]
    cases isBound : bindings.lookup own with
    | some bound => simp [isBound]
    | none => simp
  · rw [beq_eq_false_iff_ne.mpr isName, Option.or_none]
    split
    · rfl
    · rw [List.lookup_cons, beq_eq_false_iff_ne.mpr isName]

theorem lookup_unifyParam (params : List String) (bindings : Bindings) (param arg : ValueType)
    (name : String) :
    (unifyParam params bindings param arg).lookup name =
      (bindings.lookup name).or ((said params param arg).lookup name) := by
  have nothing : ∀ bindings : Bindings, bindings.lookup name =
      (bindings.lookup name).or (List.lookup name ([] : Bindings)) := fun _ => Option.or_none.symm
  induction param using ValueType.rec (motive_2 := fun rest => ∀ bindings args,
    (unifyAll params bindings rest args).lookup name =
      (bindings.lookup name).or ((saidAll params rest args).lookup name)) generalizing bindings arg with
  | named own args ih =>
      rw [unifyParam.eq_def, said.eq_def]
      dsimp only
      split
      next =>
        by_cases isAny : (arg == .any) = true
        · rw [isAny]
          exact nothing bindings
        · rw [eq_false_of_ne_true isAny, Bool.false_or]
          exact lookup_bindNew bindings own name arg
      next =>
        cases arg with
        | named other otherArgs =>
            dsimp only
            split
            · exact ih bindings otherArgs
            · exact nothing bindings
        | _ => exact nothing bindings
  | array inner ih =>
      cases arg with
      | array other => exact ih bindings other
      | _ => exact nothing bindings
  | map value ih =>
      cases arg with
      | map other => exact ih bindings other
      | _ => exact nothing bindings
  | nullable inner ih =>
      cases arg with
      | nullable other => exact ih bindings other
      | _ => exact ih bindings _
  | nil bindings args => exact nothing bindings
  | cons param rest ihParam ihRest bindings args =>
      cases args with
      | nil => exact nothing bindings
      | cons arg args =>
          rw [unifyAll, saidAll, ihRest, ihParam, List.lookup_append, Option.or_assoc]
  | _ => exact nothing bindings

theorem lookup_unifyAll (params : List String) (bindings : Bindings) (rest args : List ValueType)
    (name : String) :
    (unifyAll params bindings rest args).lookup name =
      (bindings.lookup name).or ((saidAll params rest args).lookup name) := by
  induction rest generalizing bindings args with
  | nil => exact Option.or_none.symm
  | cons param rest ih =>
      cases args with
      | nil => exact Option.or_none.symm
      | cons arg args =>
          rw [unifyAll, saidAll, ih, lookup_unifyParam, List.lookup_append, Option.or_assoc]

variable {params : List String} {s : String → ValueType} {entry : String × ValueType}
  {declared argTypes : List ValueType}

theorem eq_any_of_beq {type : ValueType} (isAny : (type == .any) = true) : type = .any := by
  cases type with
  | any => rfl
  | _ => exact absurd isAny Bool.false_ne_true

/-- An instance says what stands for each type parameter that occurs. -/
theorem said_instantiate (notAny : ∀ param ∈ params, s param ≠ .any) (param : ValueType) :
    said params param (instantiate params s param) =
      (occurring params param).map fun name => (name, s name) := by
  induction param using ValueType.rec (motive_2 := fun rest =>
    saidAll params rest (instantiateAll params s rest) =
      (occurringAll params rest).map fun name => (name, s name)) with
  | named own args ih =>
      rw [instantiate, occurring]
      by_cases isParam : params.contains own = true
      · have notAnyOwn : ¬ (s own == .any) = true := fun isAny =>
          notAny own (List.contains_iff_mem.mp isParam) (eq_any_of_beq isAny)
        rw [if_pos isParam, if_pos isParam, said.eq_def]
        dsimp only
        rw [if_pos isParam, if_neg notAnyOwn, List.map_singleton]
      · rw [if_neg isParam, if_neg isParam, said.eq_def]
        dsimp only
        rw [if_neg isParam, if_pos rfl, ih]
  | array inner ih => exact ih
  | map value ih => exact ih
  | nullable inner ih => exact ih
  | cons param rest ihParam ihRest =>
      rw [instantiateAll, saidAll, occurringAll, List.map_append, ihParam, ihRest]
  | _ => rfl

theorem mem_of_said {param arg : ValueType} (isSaid : entry ∈ said params param arg) :
    entry.1 ∈ params := by
  induction param using ValueType.rec (motive_2 := fun rest => ∀ args,
    entry ∈ saidAll params rest args → entry.1 ∈ params) generalizing arg with
  | named own args ih =>
      rw [said.eq_def] at isSaid
      dsimp only at isSaid
      split at isSaid
      next isParam =>
        split at isSaid
        next => contradiction
        next =>
          rw [List.mem_singleton.mp isSaid]
          exact List.contains_iff_mem.mp isParam
      next =>
        cases arg with
        | named other otherArgs =>
            dsimp only at isSaid
            split at isSaid
            next => exact ih otherArgs isSaid
            next => contradiction
        | _ => contradiction
  | array inner ih =>
      cases arg with
      | array other => exact ih isSaid
      | _ => contradiction
  | map value ih =>
      cases arg with
      | map other => exact ih isSaid
      | _ => contradiction
  | nullable inner ih =>
      cases arg with
      | nullable other => exact ih isSaid
      | _ => exact ih isSaid
  | nil args isSaid => contradiction
  | cons param rest ihParam ihRest args isSaid =>
      cases args with
      | nil => contradiction
      | cons arg args =>
          rw [saidAll, List.mem_append] at isSaid
          rcases isSaid with first | later
          · exact ihParam first
          · exact ihRest args later
  | _ => contradiction

/-- The arguments of a call say nothing but what a substitution says of which they are instances. -/
theorem saidAll_instances (notAny : ∀ param ∈ params, s param ≠ .any)
    (instances : ∀ pair ∈ declared.zip argTypes, IsInstance params s pair.1 pair.2)
    (isSaid : entry ∈ saidAll params declared argTypes) : entry.2 = s entry.1 := by
  have ofOne : ∀ param arg, IsInstance params s param arg → entry ∈ said params param arg →
      entry.2 = s entry.1 := by
    intro param arg isInstance isSaid
    induction isInstance with
    | same param =>
        rw [said_instantiate notAny, List.mem_map] at isSaid
        rcases isSaid with ⟨name, -, rfl⟩
        rfl
    | @widened param arg notNullable isInstance ih =>
        cases arg with
        | nullable inner => exact absurd rfl (notNullable inner)
        | _ => exact ih isSaid
  induction declared generalizing argTypes with
  | nil => contradiction
  | cons param declared ih =>
      cases argTypes with
      | nil => contradiction
      | cons arg argTypes =>
          rw [List.zip_cons_cons, List.forall_mem_cons] at instances
          rw [saidAll, List.mem_append] at isSaid
          rcases isSaid with first | later
          · exact ofOne param arg instances.1 first
          · exact ih instances.2 later

theorem mem_of_saidAll (isSaid : entry ∈ saidAll params declared argTypes) : entry.1 ∈ params := by
  induction declared generalizing argTypes with
  | nil => contradiction
  | cons param declared ih =>
      cases argTypes with
      | nil => contradiction
      | cons arg argTypes =>
          rw [saidAll, List.mem_append] at isSaid
          rcases isSaid with first | later
          · exact mem_of_said first
          · exact ih later

section Substitution

variable {params : List String} {bindings : Bindings}

/-- Bindings of type parameters only. -/
def Within (params : List String) (bindings : Bindings) : Prop :=
  ∀ name, (bindings.lookup name).isSome → name ∈ params

theorem substituteBindings_eq (within : Within params bindings) (type : ValueType)
    (bound : ∀ name ∈ occurring params type, bindings.lookup name = some (s name)) :
    substituteBindings bindings type = instantiate params s type := by
  induction type using ValueType.rec (motive_2 := fun types =>
    (∀ name ∈ occurringAll params types, bindings.lookup name = some (s name)) →
      substituteAll bindings types = instantiateAll params s types) with
  | named own args ih =>
      rw [substituteBindings, instantiate]
      rw [occurring] at bound
      by_cases isParam : params.contains own = true
      · rw [if_pos isParam, List.forall_mem_singleton] at bound
        rw [if_pos isParam, bound]
      · rw [if_neg isParam] at bound ⊢
        have unbound : bindings.lookup own = none := by
          rw [← Option.not_isSome_iff_eq_none]
          exact fun isBound => isParam (List.contains_iff_mem.mpr (within own isBound))
        rw [unbound, ih bound]
  | array inner ih => exact congrArg ValueType.array (ih bound)
  | map value ih => exact congrArg ValueType.map (ih bound)
  | nullable inner ih => exact congrArg ValueType.nullable (ih bound)
  | nil bound => rfl
  | cons type types ihType ihTypes bound =>
      rw [occurringAll, List.forall_mem_append] at bound
      rw [substituteAll, instantiateAll, ihType bound.1, ihTypes bound.2]
  | _ => rfl

theorem bound_of_resolved (within : Within params bindings) (type : ValueType)
    (resolved : containsTypeParam params (substituteBindings bindings type) = false) :
    ∀ name ∈ occurring params type, (bindings.lookup name).isSome := by
  induction type using ValueType.rec (motive_2 := fun types =>
    containsTypeParams params (substituteAll bindings types) = false →
      ∀ name ∈ occurringAll params types, (bindings.lookup name).isSome) with
  | named own args ih =>
      rw [substituteBindings] at resolved
      rw [occurring]
      split
      next isParam =>
        rw [List.forall_mem_singleton]
        cases isBound : bindings.lookup own with
        | some bound => rfl
        | none =>
            rw [isBound, containsTypeParam, isParam, Bool.true_or] at resolved
            contradiction
      next notParam =>
        have unbound : bindings.lookup own = none := by
          rw [← Option.not_isSome_iff_eq_none]
          exact fun isBound => notParam (List.contains_iff_mem.mpr (within own isBound))
        rw [unbound, containsTypeParam, eq_false_of_ne_true notParam, Bool.false_or] at resolved
        exact ih resolved
  | array inner ih => exact ih resolved
  | map value ih => exact ih resolved
  | nullable inner ih => exact ih resolved
  | nil resolved name member => exact absurd member List.not_mem_nil
  | cons type types ihType ihTypes resolved name member =>
      rw [substituteAll, containsTypeParams, Bool.or_eq_false_iff] at resolved
      rw [occurringAll, List.mem_append] at member
      rcases member with first | later
      · exact ihType resolved.1 name first
      · exact ihTypes resolved.2 name later
  | _ => exact List.forall_mem_nil _

end Substitution

theorem within_saidByCall (params : List String) (declared argTypes : List ValueType)
    (explicit : List Ty) : Within params (saidByCall params declared argTypes explicit) := by
  intro name isBound
  rcases Option.isSome_iff_exists.mp isBound with ⟨type, isBound⟩
  rcases List.mem_append.mp (Entries.mem_of_lookup isBound) with isExplicit | isSaid
  · exact (List.of_mem_zip (List.mem_reverse.mp isExplicit)).1
  · exact mem_of_saidAll isSaid

theorem unifyGenericReturn_some {t : Tables} {key : String} {returnType resolved : ValueType}
    {explicit : List Ty} (isGeneric : t.genericMethodParamTypes key = some (declared, params))
    (isResolved : unifyGenericReturn t key returnType argTypes explicit = some resolved) :
    ∃ bindings : Bindings,
      (∀ name, bindings.lookup name = (saidByCall params declared argTypes explicit).lookup name) ∧
      resolved = substituteBindings bindings returnType ∧
      containsTypeParam params resolved = false := by
  rw [unifyGenericReturn, isGeneric] at isResolved
  dsimp only at isResolved
  split at isResolved
  next =>
    rw [genericReturn, Option.ite_none_right_eq_some, Bool.and_eq_true, Bool.not_eq_true'] at isResolved
    rcases isResolved with ⟨⟨resolves, -⟩, isSome⟩
    cases isSome
    refine ⟨_, fun name => ?_, rfl, resolves⟩
    rw [saidByCall, List.lookup_append, aligned]
    by_cases same : argTypes.length = declared.length
    · rw [if_pos same, if_pos same]
      exact lookup_unifyAll params _ declared argTypes name
    · rw [if_neg same, if_neg same]
      by_cases hasReceiver : argTypes.length + 1 = declared.length
      · rw [if_pos hasReceiver, if_pos hasReceiver]
        exact lookup_unifyAll params _ declared.tail argTypes name
      · rw [if_neg hasReceiver, if_neg hasReceiver]
        exact Option.or_none.symm
  next => contradiction

theorem resolved_eq {t : Tables} {key : String} {returnType resolved : ValueType}
    {explicit : List Ty} (isGeneric : t.genericMethodParamTypes key = some (declared, params))
    (isResolved : unifyGenericReturn t key returnType argTypes explicit = some resolved)
    (agrees : ∀ name type, (saidByCall params declared argTypes explicit).lookup name = some type → type = s name) :
    resolved = instantiate params s returnType := by
  rcases unifyGenericReturn_some isGeneric isResolved with ⟨bindings, isSaid, rfl, isConcrete⟩
  have within : Within params bindings := by
    intro name isBound
    rw [isSaid] at isBound
    exact within_saidByCall params declared argTypes explicit name isBound
  apply substituteBindings_eq within
  intro name member
  rcases Option.isSome_iff_exists.mp (bound_of_resolved within returnType isConcrete name member) with
    ⟨type, isBound⟩
  rw [isBound, agrees name type (by rw [← isSaid, isBound])]

/-- An instance of a parameter's type says what its type parameters stand for, unless it is known,
and replacing them gives this instance; a call that is resolved gives the return type with what its
type arguments, and then its arguments, determine for the type parameters. -/
theorem unification_recovers (params : List String) (s : String → ValueType)
    (notAny : ∀ param ∈ params, s param ≠ .any) :
    (∀ param bindings, AgreesWith params s bindings →
      (∀ name ∈ occurring params param,
        (unifyParam params bindings param (instantiate params s param)).lookup name = some (s name)) ∧
      (∀ name type, bindings.lookup name = some type →
        (unifyParam params bindings param (instantiate params s param)).lookup name = some type) ∧
      substituteBindings (unifyParam params bindings param (instantiate params s param)) param =
        instantiate params s param) ∧
    ∀ t key declared returnType argTypes explicit resolved,
      t.genericMethodParamTypes key = some (declared, params) →
      unifyGenericReturn t key returnType argTypes explicit = some resolved →
      resolved = instantiate params (determined params declared argTypes explicit) returnType ∧
        ((∀ pair ∈ params.zip (explicit.map fromParserType), pair.2 = s pair.1) →
          (∀ pair ∈ (aligned declared argTypes).zip argTypes, IsInstance params s pair.1 pair.2) →
          resolved = instantiate params s returnType) := by
  constructor
  · intro param bindings agrees
    have isBound : ∀ name ∈ occurring params param,
        (unifyParam params bindings param (instantiate params s param)).lookup name = some (s name) := by
      intro name member
      rw [lookup_unifyParam, said_instantiate notAny, List.lookup_graph s member]
      cases isEarlier : bindings.lookup name with
      | none => rfl
      | some type => rw [(agrees name type isEarlier).2, Option.some_or]
    refine ⟨isBound, fun name type isEarlier => ?_, substituteBindings_eq ?_ param isBound⟩
    · rw [lookup_unifyParam, isEarlier, Option.some_or]
    · intro name isBoundNow
      rw [lookup_unifyParam, Option.isSome_or, Bool.or_eq_true] at isBoundNow
      rcases isBoundNow with isEarlier | isSaid
      · rcases Option.isSome_iff_exists.mp isEarlier with ⟨type, isEarlier⟩
        exact (agrees name type isEarlier).1
      · rcases Option.isSome_iff_exists.mp isSaid with ⟨type, isSaid⟩
        exact mem_of_said (Entries.mem_of_lookup isSaid)
  · intro t key declared returnType argTypes explicit resolved isGeneric isResolved
    constructor
    · apply resolved_eq isGeneric isResolved
      intro name type isSaid
      rw [determined, isSaid, Option.getD_some]
    · intro sameExplicit instances
      apply resolved_eq isGeneric isResolved
      intro name type isSaid
      rcases List.mem_append.mp (Entries.mem_of_lookup isSaid) with isExplicit | isArgument
      · exact sameExplicit _ (List.mem_reverse.mp isExplicit)
      · exact saidAll_instances notAny instances isArgument

/-- Tables with one generic method, `Box::pick` of a list and a value for a `T` that may be null. -/
def pickTables : Tables where
  functions := fun _ => none
  enums := fun _ => none
  enumVariantPayloads := fun _ => none
  interfaceImplementations := fun _ => none
  classParents := []
  currentClass := none
  methodVisibility := fun _ => none
  fieldVisibility := fun _ => none
  typeParamScope := []
  knownClassNames := []
  genericClassNames := []
  classTypeParams := fun _ => none
  methodUsesThis := []
  genericMethodParamTypes := fun key =>
    if key = "Box::pick" then
      some ([.array (.named "T" []), .nullable (.named "T" [])], ["T"])
    else none
  classFields := fun _ => none
  genericInstanceFnArgHints := fun _ => none

/-- What `T` stands for in a call with a list of boxes of strings. -/
def boxOfStrings : String → ValueType :=
  fun _ => .named "Box" [.string]

theorem unification_recovers_pick :
    (unifyParam ["T"] [] (.array (.named "T" [])) (.array (boxOfStrings "T"))).lookup "T" =
        some (boxOfStrings "T") ∧
      ValueType.array (boxOfStrings "T") =
        instantiate ["T"] boxOfStrings (.array (.named "T" [])) := by
  have recovers := unification_recovers ["T"] boxOfStrings fun _ _ => nofun
  have isResolved : unifyGenericReturn pickTables "Box::pick" (.array (.named "T" []))
      [.array (boxOfStrings "T"), boxOfStrings "T"] [] = some (.array (boxOfStrings "T")) := rfl
  refine ⟨(recovers.1 (.array (.named "T" [])) [] nofun).1 "T" (.head _), ?_⟩
  apply (recovers.2 _ _ _ _ _ _ _ rfl isResolved).2 nofun
  change ∀ pair ∈ [(ValueType.array (.named "T" []), ValueType.array (boxOfStrings "T")),
    (.nullable (.named "T" []), boxOfStrings "T")], IsInstance ["T"] boxOfStrings pair.1 pair.2
  rw [List.forall_mem_cons, List.forall_mem_singleton]
  exact ⟨.same (.array (.named "T" [])), .widened nofun (.same (.named "T" []))⟩

end Tinox.Check
