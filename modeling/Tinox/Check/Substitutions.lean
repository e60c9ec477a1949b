import Tinox.Check.Program
import Tinox.Check.Unification

/-!
# Two substitutions for type parameters

`substitute_type_params` resolves the fields of an instance and `substitute_bindings` the results of
calls.  The first one leaves the arguments of a generic type as they are.
-/

namespace Tinox.Check

open Tinox.Syntax

mutual

/-- The type parameters that occur in a type, each with the arguments that are written for it. -/
def written (params : List String) : ValueType → List (String × List ValueType)
  | .named name args => if params.contains name then [(name, args)] else writtenAll params args
  | .array inner | .map inner | .nullable inner => written params inner
  | _ => []

def writtenAll (params : List String) : List ValueType → List (String × List ValueType)
  | [] => []
  | arg :: args => written params arg ++ writtenAll params args

end

/-- The type parameters that occur below the arguments of a generic type. -/
def hidden (params : List String) : ValueType → List (String × List ValueType)
  | .named name args => if params.contains name then [] else writtenAll params args
  | .array inner | .map inner | .nullable inner => hidden params inner
  | _ => []

section Instances

variable {params : List String} {targs : List ValueType}

theorem lookup_zip (sameLength : targs.length = params.length) (name : String) :
    (params.zip targs).lookup name = (params.idxOf? name).bind fun index => targs[index]? := by
  induction params generalizing targs with
  | nil => rfl
  | cons param params ih =>
      cases targs with
      | nil => contradiction
      | cons targ targs =>
          rw [List.zip_cons_cons, List.lookup_cons, List.idxOf?_cons]
          by_cases isParam : name = param
          · subst isParam
            rw [beq_self_eq_true, if_pos rfl]
            rfl
          · rw [beq_eq_false_iff_ne.mpr isParam, if_neg (by simpa using Ne.symm isParam),
              ih (Nat.succ.inj sameLength)]
            cases params.idxOf? name <;> rfl

theorem lookup_zip_none (sameLength : targs.length = params.length) {name : String}
    (notParam : ¬ params.contains name = true) : (params.zip targs).lookup name = none := by
  rw [Entries.lookup_eq_none, List.map_fst_zip (Nat.le_of_eq sameLength.symm)]
  exact fun isParam => notParam (List.contains_iff_mem.mpr isParam)

theorem lookup_zip_some (sameLength : targs.length = params.length) {name : String}
    (isParam : params.contains name = true) :
    ∃ targ ∈ targs, (params.zip targs).lookup name = some targ := by
  cases isBound : (params.zip targs).lookup name with
  | none =>
      rw [Entries.lookup_eq_none, List.map_fst_zip (Nat.le_of_eq sameLength.symm)] at isBound
      exact absurd (List.contains_iff_mem.mp isParam) isBound
  | some targ => exact ⟨targ, List.of_mem_zip (Entries.mem_of_lookup isBound) |>.2, rfl⟩

/-- A type is left as it is exactly if each parameter that occurs in it stands for itself. -/
theorem substituteBindings_same_iff (sameLength : targs.length = params.length) (type : ValueType) :
    substituteBindings (params.zip targs) type = type ↔ ∀ occurrence ∈ written params type,
      (params.zip targs).lookup occurrence.1 = some (.named occurrence.1 occurrence.2) := by
  induction type using ValueType.rec (motive_2 := fun types =>
    substituteAll (params.zip targs) types = types ↔ ∀ occurrence ∈ writtenAll params types,
      (params.zip targs).lookup occurrence.1 = some (.named occurrence.1 occurrence.2)) with
  | named name args ih =>
      rw [substituteBindings, written]
      by_cases isParam : params.contains name = true
      · rcases lookup_zip_some sameLength isParam with ⟨targ, -, isBound⟩
        rw [if_pos isParam, List.forall_mem_singleton, isBound, Option.some.injEq]
      · rw [if_neg isParam, lookup_zip_none sameLength isParam, ← ih, ValueType.named.injEq]
        exact and_iff_right rfl
  | array inner ih =>
      rw [substituteBindings, written, ValueType.array.injEq]
      exact ih
  | map value ih =>
      rw [substituteBindings, written, ValueType.map.injEq]
      exact ih
  | nullable inner ih =>
      rw [substituteBindings, written, ValueType.nullable.injEq]
      exact ih
  | cons type types ihType ihTypes =>
      rw [substituteAll, writtenAll, List.forall_mem_append, ← ihType, ← ihTypes, List.cons.injEq]
  | _ => exact ⟨fun _ _ member => absurd member List.not_mem_nil, fun _ => rfl⟩

theorem go_nil (type : ValueType) : substituteTypeParams.go [] [] type = type := by
  induction type using ValueType.rec (motive_2 := fun _ => True) with
  | array inner ih => exact congrArg ValueType.array ih
  | map value ih => exact congrArg ValueType.map ih
  | nullable inner ih => exact congrArg ValueType.nullable ih
  | nil => trivial
  | cons => trivial
  | _ => rfl

/-- The substitution of an instance goes through the type; without parameters there is nothing to
replace. -/
theorem substituteTypeParams_go (t : Tables) {className : String}
    (isGeneric : t.classTypeParams className = some params)
    (sameLength : targs.length = params.length) (type : ValueType) :
    substituteTypeParams t className targs type = substituteTypeParams.go targs params type := by
  rw [substituteTypeParams, isGeneric]
  cases targs with
  | nil =>
      have noParams : params = [] := List.eq_nil_of_length_eq_zero sameLength.symm
      rw [noParams, go_nil]
      rfl
  | cons targ targs => rfl

/-- The substitutions agree exactly if each parameter below the arguments of a generic type stands
for itself. -/
theorem go_eq_iff (sameLength : targs.length = params.length) (type : ValueType) :
    substituteTypeParams.go targs params type = substituteBindings (params.zip targs) type ↔
      ∀ occurrence ∈ hidden params type,
        (params.zip targs).lookup occurrence.1 = some (.named occurrence.1 occurrence.2) := by
  induction type using ValueType.rec (motive_2 := fun _ => True) with
  | named name args =>
      rw [substituteTypeParams.go, hidden]
      by_cases isParam : params.contains name = true
      · rcases lookup_zip_some sameLength isParam with ⟨targ, -, isBound⟩
        rw [if_pos isParam, substituteBindings, isBound]
        rw [lookup_zip sameLength] at isBound
        rcases Option.bind_eq_some_iff.mp isBound with ⟨index, isIndex, isArg⟩
        rw [isIndex]
        dsimp only
        rw [isArg]
        exact ⟨fun _ _ member => absurd member List.not_mem_nil, fun _ => rfl⟩
      · have notIndex : params.idxOf? name = none := by
          rw [List.idxOf?_eq_none_iff]
          exact fun isIn => isParam (List.contains_iff_mem.mpr isIn)
        have same := substituteBindings_same_iff sameLength (.named name args)
        rw [written, if_neg isParam] at same
        rw [if_neg isParam, notIndex, ← same]
        exact eq_comm
  | array inner ih =>
      rw [substituteBindings, substituteTypeParams.go, hidden, ValueType.array.injEq]
      exact ih
  | map value ih =>
      rw [substituteBindings, substituteTypeParams.go, hidden, ValueType.map.injEq]
      exact ih
  | nullable inner ih =>
      rw [substituteBindings, substituteTypeParams.go, hidden, ValueType.nullable.injEq]
      exact ih
  | nil => trivial
  | cons => trivial
  | _ => exact ⟨fun _ _ member => absurd member List.not_mem_nil, fun _ => rfl⟩

theorem containsTypeParam_substituteBindings (sameLength : targs.length = params.length)
    (concrete : ∀ targ ∈ targs, containsTypeParam params targ = false) (type : ValueType) :
    containsTypeParam params (substituteBindings (params.zip targs) type) = false := by
  induction type using ValueType.rec (motive_2 := fun types =>
    containsTypeParams params (substituteAll (params.zip targs) types) = false) with
  | named name args ih =>
      rw [substituteBindings]
      by_cases isParam : params.contains name = true
      · rcases lookup_zip_some sameLength isParam with ⟨targ, isArg, isBound⟩
        rw [isBound]
        exact concrete targ isArg
      · rw [lookup_zip_none sameLength isParam, containsTypeParam, ih,
          eq_false_of_ne_true isParam]
        rfl
  | array inner ih => exact ih
  | map value ih => exact ih
  | nullable inner ih => exact ih
  | nil => rfl
  | cons type types ihType ihTypes =>
      rw [substituteAll, containsTypeParams, ihType, ihTypes]
      rfl
  | _ => rfl

theorem lookup_require (condition : Bool) (error : BodyError) (name : String) (s : CheckState) :
    ((Check.require condition error).run s).2.lookup name = s.lookup name := by
  rw [Check.require]
  split <;> rfl

theorem lookup_checkFieldVisibility (t : Tables) (className field name : String) (s : CheckState) :
    ((checkFieldVisibility t className field).run s).2.lookup name = s.lookup name := by
  rw [checkFieldVisibility]
  split
  · exact lookup_require _ _ name s
  · rfl

theorem fieldType_registered (t : Tables) {className field : String} {s : CheckState}
    {type : ValueType} {mutable : Bool}
    (isField : s.lookup (className ++ "." ++ field) = some (type, mutable)) :
    ((fieldType t (.named className targs) field).run s).1 =
      substituteTypeParams t className targs type := by
  rw [fieldType, Check.run_bind, Check.run_bind, Check.run_state, lookup_checkFieldVisibility, isField]
  rfl

/-- The substitutions agree on a type, also where it is the type of a field, and type arguments
without parameters leave no parameter of the class in it. -/
def Agree (t : Tables) (className : String) (params : List String) (targs : List ValueType)
    (type : ValueType) : Prop :=
  substituteTypeParams t className targs type = substituteBindings (params.zip targs) type ∧
    (∀ field s mutable, s.lookup (className ++ "." ++ field) = some (type, mutable) →
      ((fieldType t (.named className targs) field).run s).1 =
        substituteBindings (params.zip targs) type) ∧
    ((∀ targ ∈ targs, containsTypeParam params targ = false) →
      containsTypeParam params (substituteTypeParams t className targs type) = false)

/-- The substitutions agree exactly if each parameter below the arguments of a generic type stands
for itself. -/
theorem substitutions_agree_iff (t : Tables) {className : String}
    (isGeneric : t.classTypeParams className = some params)
    (sameLength : targs.length = params.length) (type : ValueType) :
    Agree t className params targs type ↔ ∀ occurrence ∈ hidden params type,
      (params.zip targs).lookup occurrence.1 = some (.named occurrence.1 occurrence.2) := by
  rw [← go_eq_iff sameLength, ← substituteTypeParams_go t isGeneric sameLength]
  constructor
  · exact And.left
  · intro agree
    refine ⟨agree, ?_, ?_⟩
    · intro field s mutable isField
      rw [fieldType_registered t isField, agree]
    · intro concrete
      rw [agree]
      exact containsTypeParam_substituteBindings sameLength concrete type

end Instances

/-- A program whose class `Wrapper` has the parameter `T`. -/
def wrapperTables : Tables :=
  { noTables with classTypeParams := fun name => if name = "Wrapper" then some ["T"] else none }

/-- A field of type `List<T>` of a `Wrapper<Int64>`. -/
theorem substitutions_agree_list : Agree wrapperTables "Wrapper" ["T"] [.int] (.array (.named "T" [])) ↔
    ∀ occurrence ∈ hidden ["T"] (.array (.named "T" [])),
      (["T"].zip [ValueType.int]).lookup occurrence.1 =
        some (.named occurrence.1 occurrence.2) :=
  substitutions_agree_iff wrapperTables rfl rfl _

/-- A field of type `Box<T>` of a `Wrapper<Int64>` keeps the parameter. -/
theorem not_agree_box : ¬ ∀ (t : Tables) (className : String) (params : List String)
    (targs : List ValueType) (type : ValueType), t.classTypeParams className = some params →
    params.Nodup → targs.length = params.length → Agree t className params targs type := by
  intro agree
  have isAgreed := agree wrapperTables "Wrapper" ["T"] [.int] (.named "Box" [.named "T" []]) rfl
    (by decide) rfl
  have resolved := isAgreed.2.2 fun targ isArg => by
    rw [List.mem_singleton.mp isArg]
    rfl
  revert resolved
  decide

end Tinox.Check
