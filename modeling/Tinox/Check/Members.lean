import Tinox.Check.Registration
import Tinox.Check.Independence
import Mathlib.Data.List.Perm.Subperm

/-!
# Registered members

Fields and methods are registered in the same way: a key becomes known, and
mostly gets a visibility.  A class gets the members of its ancestors under keys
of its own.
-/

namespace Tinox.Check

open Tinox.Syntax

inductive MemberKind where
  | field
  | method
  deriving DecidableEq, Repr

namespace MemberKind

/-- The members that a class declares, with their visibility. -/
def declared (kind : MemberKind) (c : ClassDecl) : List (Ident × Visibility) :=
  match kind with
  | .field => c.fields.map fun field => (field.name, field.visibility)
  | .method => c.methods.map fun method => (method.name, method.visibility)

/-- The key under which a member is registered. -/
def key (kind : MemberKind) (className : String) (name : Ident) : String :=
  match kind with
  | .field => fieldKey className name
  | .method => methodSymbol className name

end MemberKind

/-- A class extends another one. -/
def Extends (file : SourceFile) (child parent : String) : Prop :=
  ∃ c ∈ classesOf file, c.name = child ∧ c.extends_ = some parent

/-- A member of a class is declared by the class itself, or by its nearest ancestor that
declares one of the name. -/
inductive DeclaredBy (file : SourceFile) (kind : MemberKind) (name : Ident) :
    String → String → Visibility → Prop
  | own {className : String} {c : ClassDecl} {visibility : Visibility} :
      classMap file className = some c → (kind.declared c).lookup name = some visibility →
        DeclaredBy file kind name className className visibility
  | inherited {className parent owner : String} {c : ClassDecl} {visibility : Visibility} :
      classMap file className = some c → (kind.declared c).lookup name = none →
        c.extends_ = some parent → DeclaredBy file kind name parent owner visibility →
          DeclaredBy file kind name className owner visibility

/-- What a program registers under a key, with its visibility if it has one. -/
inductive Entered (builtins : String → Option Signature) (file : SourceFile) :
    MemberKind → String → Option Visibility → Prop
  | own {kind : MemberKind} {c : ClassDecl} {name : Ident} {visibility : Visibility} :
      c ∈ classesOf file → (name, visibility) ∈ kind.declared c →
        Entered builtins file kind (kind.key c.name name) (some visibility)
  | inherited {kind : MemberKind} {className owner : String} {name : Ident}
      {visibility : Visibility} : DeclaredBy file kind name className owner visibility →
        Entered builtins file kind (kind.key className name) (some visibility)
  | log {c : ClassDecl} : c ∈ classesOf file → ClassDecl.hasAnnotation c "Log" →
      Entered builtins file .field (fieldKey c.name "log") (some .pub)
  | json {c : ClassDecl} {name : Ident} : c ∈ classesOf file →
      ClassDecl.hasAnnotation c "JsonSerializable" → name ∈ ["toJson", "fromJson"] →
        Entered builtins file .method (methodSymbol c.name name) none
  | variant {e : EnumDecl} {variant : EnumVariant} : .enum e ∈ flattenDecls file →
      variant ∈ e.variants → Entered builtins file .field (fieldKey e.name variant.name) none
  | immutableField {u : ImmutableDecl} {field : Param} : .immutable u ∈ flattenDecls file →
      field ∈ u.fields → Entered builtins file .field (fieldKey u.name field.name) (some .pub)
  | immutableNew {u : ImmutableDecl} : .immutable u ∈ flattenDecls file →
      Entered builtins file .method (methodSymbol u.name "new") (some .pub)
  | builtin {key : String} : (builtins key).isSome → Entered builtins file .method key none
  | function {f : FunctionDecl} : .function f ∈ flattenDecls file →
      Entered builtins file .method f.name none
  | required {iface method : String} :
      (registerAll (enterAllDecls builtins file).tables.functions file).Provides iface method →
        Entered builtins file .method (methodSymbol iface method) none

namespace Registered

/-- Something is registered under a key. -/
def known (r : Registered) (kind : MemberKind) (key : String) : Bool :=
  match kind with
  | .field => (r.members.lookup key).isSome
  | .method => (r.tables.functions key).isSome

def visibility (r : Registered) (kind : MemberKind) (key : String) : Option Visibility :=
  match kind with
  | .field => r.tables.fieldVisibility key
  | .method => r.tables.methodVisibility key

end Registered

/-! ## What a step of registration adds -/

/-- What a step of registration may do to the members: keys and their visibilities come from
the program, and nothing is forgotten. -/
structure Adds (builtins : String → Option Signature) (file : SourceFile) (r r' : Registered) :
    Prop where
  visibility : ∀ kind key visibility, r'.visibility kind key = some visibility →
    r.visibility kind key = some visibility ∨ Entered builtins file kind key (some visibility)
  known : ∀ kind key, r'.known kind key = true →
    r.known kind key = true ∨ Entered builtins file kind key none ∨
      (r'.visibility kind key).isSome
  keepsVisibility : ∀ kind key, (r.visibility kind key).isSome → (r'.visibility kind key).isSome
  keepsKnown : ∀ kind key, r.known kind key = true → r'.known kind key = true
  parents : ∀ child parent, (child, parent) ∈ r'.tables.classParents →
    (child, parent) ∈ r.tables.classParents ∨ Extends file child parent

variable {builtins : String → Option Signature} {file : SourceFile} {r r' r'' : Registered}

variable {α : Type} {step : Registered → α → Registered}

namespace Adds

theorem of_eq (known : r'.known = r.known) (visibility : r'.visibility = r.visibility)
    (parents : r'.tables.classParents = r.tables.classParents) : Adds builtins file r r' := by
  constructor
  · intro kind key visibility' found
    exact .inl (visibility ▸ found)
  · intro kind key found
    exact .inl (known ▸ found)
  · intro kind key found
    rw [visibility]
    exact found
  · intro kind key found
    rw [known]
    exact found
  · intro child parent found
    exact .inl (parents ▸ found)

theorem refl (r : Registered) : Adds builtins file r r :=
  of_eq rfl rfl rfl

theorem trans (first : Adds builtins file r r') (second : Adds builtins file r' r'') :
    Adds builtins file r r'' := by
  constructor
  · intro kind key visibility found
    rcases second.visibility kind key visibility found with old | entered
    · exact first.visibility kind key visibility old
    · exact .inr entered
  · intro kind key found
    rcases second.known kind key found with old | entered | shown
    · rcases first.known kind key old with older | entered | shown
      · exact .inl older
      · exact .inr (.inl entered)
      · exact .inr (.inr (second.keepsVisibility kind key shown))
    · exact .inr (.inl entered)
    · exact .inr (.inr shown)
  · intro kind key found
    exact second.keepsVisibility kind key (first.keepsVisibility kind key found)
  · intro kind key found
    exact second.keepsKnown kind key (first.keepsKnown kind key found)
  · intro child parent found
    rcases second.parents child parent found with old | extends_
    · exact first.parents child parent old
    · exact .inr extends_

theorem foldl (items : List α) (adds : ∀ r, ∀ item ∈ items, Adds builtins file r (step r item))
    (r : Registered) : Adds builtins file r (items.foldl step r) := by
  induction items generalizing r with
  | nil => exact refl r
  | cons item items ih =>
      have first := adds r item List.mem_cons_self
      have later := ih (fun r other member => adds r other (List.mem_cons_of_mem item member))
        (step r item)
      exact first.trans later

end Adds

variable {key other : String} {value : α} {table : String → Option α}

theorem isSome_lookup_cons {entries : List (String × α)} :
    (((key, value) :: entries).lookup other).isSome ↔
      other = key ∨ (entries.lookup other).isSome := by
  rw [List.lookup_cons]
  by_cases same : other = key
  · simp [same]
  · have unequal : (other == key) = false := beq_false_of_ne same
    simp [same, unequal]

theorem isSome_update :
    (Function.update table key (some value) other).isSome ↔ other = key ∨ (table other).isSome := by
  by_cases same : other = key
  · subst same
    simp
  · rw [Function.update_of_ne same]
    simp [same]

theorem eq_some_of_update {found : α}
    (updated : Function.update table key (some value) other = some found) :
    other = key ∧ found = value ∨ table other = some found := by
  by_cases same : other = key
  · subst same
    rw [Function.update_self] at updated
    exact .inl ⟨rfl, (Option.some.inj updated).symm⟩
  · rw [Function.update_of_ne same] at updated
    exact .inr updated

variable {kind : MemberKind} {visibility : Visibility}

namespace Adds

theorem unshown (entered : Entered builtins file kind key none)
    (known : ∀ other, r'.known kind other = true → other = key ∨ r.known kind other = true)
    (kept : ∀ k other, r.known k other = true → r'.known k other = true)
    (apart : ∀ k ≠ kind, r'.known k = r.known k) (visibility : r'.visibility = r.visibility)
    (parents : r'.tables.classParents = r.tables.classParents) : Adds builtins file r r' := by
  refine ⟨fun k other shown found => .inl (visibility ▸ found), fun k other found => ?_,
    fun k other found => visibility ▸ found, kept, fun _ _ found => .inl (parents ▸ found)⟩
  by_cases same : k = kind
  · subst same
    rcases known other found with rfl | old
    · exact .inr (.inl entered)
    · exact .inl old
  · exact .inl (apart k same ▸ found)

theorem shown (entered : Entered builtins file kind key (some visibility))
    (known : ∀ other, r'.known kind other = true ↔ other = key ∨ r.known kind other = true)
    (found : ∀ other shown, r'.visibility kind other = some shown →
      other = key ∧ shown = visibility ∨ r.visibility kind other = some shown)
    (isShown : ∀ other, (r'.visibility kind other).isSome ↔
      other = key ∨ (r.visibility kind other).isSome)
    (apart : ∀ k ≠ kind, r'.known k = r.known k ∧ r'.visibility k = r.visibility k)
    (parents : r'.tables.classParents = r.tables.classParents) : Adds builtins file r r' := by
  constructor
  · intro k other shown isFound
    by_cases same : k = kind
    · subst same
      rcases found other shown isFound with ⟨rfl, rfl⟩ | old
      · exact .inr entered
      · exact .inl old
    · exact .inl ((apart k same).2 ▸ isFound)
  · intro k other isFound
    by_cases same : k = kind
    · subst same
      rcases (known other).mp isFound with rfl | old
      · exact .inr (.inr ((isShown other).mpr (.inl rfl)))
      · exact .inl old
    · exact .inl ((apart k same).1 ▸ isFound)
  · intro k other isFound
    by_cases same : k = kind
    · subst same
      exact (isShown other).mpr (.inr isFound)
    · exact (apart k same).2 ▸ isFound
  · intro k other isFound
    by_cases same : k = kind
    · subst same
      exact (known other).mpr (.inr isFound)
    · exact (apart k same).1 ▸ isFound
  · exact fun _ _ isFound => .inl (parents ▸ isFound)

theorem member {type : ValueType} {mutable : Bool} (entered : Entered builtins file .field key none) :
    Adds builtins file r (r.insertMember key type mutable) := by
  refine unshown entered (fun _ => isSome_lookup_cons.mp) (fun kind _ found => ?_)
    (fun kind other => ?_) rfl rfl
  · cases kind with
    | method => exact found
    | field => exact isSome_lookup_cons.mpr (.inr found)
  · cases kind with
    | method => rfl
    | field => contradiction

theorem field {key : String} {type : ValueType} {mutable : Bool} {visibility : Visibility}
    (entered : Entered builtins file .field key (some visibility)) :
    Adds builtins file r ((r.insertMember key type mutable).insertFieldVisibility key visibility) := by
  refine shown entered (fun _ => isSome_lookup_cons) (fun _ _ => eq_some_of_update)
    (fun _ => isSome_update) (fun kind other => ?_) rfl
  cases kind with
  | method => exact ⟨rfl, rfl⟩
  | field => contradiction

theorem function {signature : Signature} (entered : Entered builtins file .method key none) :
    Adds builtins file r (r.insertFunction key signature) := by
  refine unshown entered (fun _ => isSome_update.mp) (fun kind _ found => ?_)
    (fun kind other => ?_) rfl rfl
  · cases kind with
    | field => exact found
    | method => exact isSome_update.mpr (.inr found)
  · cases kind with
    | field => rfl
    | method => contradiction

theorem method {signature : Signature}
    (entered : Entered builtins file .method key (some visibility)) : Adds builtins file r
      ((r.insertFunction key signature).insertMethodVisibility key visibility) := by
  refine shown entered (fun _ => isSome_update) (fun _ _ => eq_some_of_update)
    (fun _ => isSome_update) (fun kind other => ?_) rfl
  cases kind with
  | field => exact ⟨rfl, rfl⟩
  | method => contradiction

end Adds

/-! ## First pass -/

variable {c : ClassDecl}

theorem mem_classesOf : c ∈ classesOf file ↔ .class_ c ∈ flattenDecls file := by
  rw [classesOf, List.mem_filterMap]
  constructor
  · rintro ⟨decl, member, found⟩
    cases decl with
    | class_ c' =>
        cases found
        exact member
    | _ => contradiction
  · intro member
    exact ⟨_, member, rfl⟩

theorem adds_registerHead (declared : c ∈ classesOf file) :
    Adds builtins file r (registerHead c r) := by
  constructor
  · exact fun kind _ _ found => .inl (by cases kind <;> exact found)
  · exact fun kind _ found => .inl (by cases kind <;> exact found)
  · exact fun kind _ found => by cases kind <;> exact found
  · exact fun kind _ found => by cases kind <;> exact found
  · intro child parent found
    simp only [registerHead] at found
    cases extends_ : c.extends_ with
    | none =>
        rw [extends_] at found
        exact .inl found
    | some other =>
        rw [extends_] at found
        rcases List.mem_cons.mp found with same | old
        · cases same
          exact .inr ⟨c, declared, rfl, extends_⟩
        · exact .inl old

theorem adds_registerField (declared : c ∈ classesOf file) {field : FieldDef}
    (member : field ∈ c.fields) : Adds builtins file r (registerField c.name r field) := by
  have listed : (field.name, field.visibility) ∈ MemberKind.field.declared c :=
    List.mem_map_of_mem member
  exact Adds.field (Entered.own declared listed)

theorem adds_registerLog (declared : c ∈ classesOf file) :
    Adds builtins file r (registerLog c r) := by
  rw [registerLog]
  split
  · rename_i annotated
    exact Adds.field (Entered.log declared annotated)
  · exact Adds.refl r

theorem adds_insertUsesThis (condition : Bool) (key : String) :
    Adds builtins file r (r.insertUsesThis condition key) := by
  rw [Registered.insertUsesThis]
  split
  · exact Adds.of_eq rfl rfl rfl
  · exact Adds.refl r

theorem adds_registerGeneric (c : ClassDecl) (method : Method) :
    Adds builtins file r (registerGeneric c method r) := by
  simp only [registerGeneric]
  by_cases plain : (c.typeParams ++ method.typeParams).isEmpty = true
  · rw [if_pos plain]
    exact Adds.refl r
  · rw [if_neg plain]
    exact Adds.of_eq rfl rfl rfl

theorem adds_registerMethod (declared : c ∈ classesOf file) {method : Method}
    (member : method ∈ c.methods) : Adds builtins file r (registerMethod c r method) := by
  have listed : (method.name, method.visibility) ∈ MemberKind.method.declared c :=
    List.mem_map_of_mem member
  have prepared : Adds builtins file r (registerGeneric c method (r.insertUsesThis
      (!method.static_ && stmtUsesThis method.body) (methodSymbol c.name method.name))) :=
    (adds_insertUsesThis _ _).trans (adds_registerGeneric c method)
  exact prepared.trans (Adds.method (Entered.own declared listed))

theorem adds_registerJson (declared : c ∈ classesOf file) :
    Adds builtins file r (registerJson c r) := by
  rw [registerJson]
  split
  · rename_i annotated
    refine Adds.trans (Adds.function ?_) (Adds.function ?_)
    · exact Entered.json declared annotated List.mem_cons_self
    · exact Entered.json declared annotated (List.mem_cons_of_mem _ List.mem_cons_self)
  · exact Adds.refl r

theorem adds_registerClass (declared : c ∈ classesOf file) :
    Adds builtins file r (registerClass r c) := by
  have head : Adds builtins file r (registerHead c r) := adds_registerHead declared
  have fields := head.trans (Adds.foldl c.fields (fun r _ member =>
    adds_registerField (r := r) declared member) _)
  have log := fields.trans (adds_registerLog declared)
  have methods := log.trans (Adds.foldl c.methods (fun r _ member =>
    adds_registerMethod (r := r) declared member) _)
  exact methods.trans (adds_registerJson declared)

theorem adds_registerEnum {e : EnumDecl} (declared : .enum e ∈ flattenDecls file) :
    Adds builtins file r (registerEnum r e) := by
  have named : Adds builtins file r
      { r with
        tables :=
          { r.tables with
            enums := Function.update r.tables.enums e.name (some (registerEnumVariants
              ((r.tables.enums e.name).getD []) (e.variants.map EnumVariant.name))) } } :=
    Adds.of_eq rfl rfl rfl
  refine named.trans (Adds.foldl _ (fun r variant member => ?_) _)
  have carried : Adds builtins file r
      { r with
        tables :=
          { r.tables with
            enumVariantPayloads := Function.update r.tables.enumVariantPayloads
              (e.name ++ "::" ++ variant.name) (some (variant.args.map fromParserType)) } } :=
    Adds.of_eq rfl rfl rfl
  exact carried.trans (Adds.member (Entered.variant declared member))

theorem adds_registerImmutable {u : ImmutableDecl} (declared : .immutable u ∈ flattenDecls file) :
    Adds builtins file r (registerImmutable r u) := by
  have fields : Adds builtins file r (u.fields.foldl (registerImmutableField u.name) r) :=
    Adds.foldl u.fields (fun r _ member => Adds.field (Entered.immutableField declared member)) r
  exact fields.trans (Adds.method (Entered.immutableNew declared))

theorem adds_enterDecl {decl : Decl} (declared : decl ∈ flattenDecls file) :
    Adds builtins file r (enterDecl r decl) := by
  cases decl with
  | function f => exact Adds.function (Entered.function declared)
  | class_ c => exact adds_registerClass (mem_classesOf.mpr declared)
  | enum e => exact adds_registerEnum declared
  | immutable u => exact adds_registerImmutable declared
  | _ => exact Adds.refl r

theorem adds_enterAllDecls :
    Adds builtins file (newChecker builtins) (enterAllDecls builtins file) :=
  Adds.foldl _ (fun _ _ declared => adds_enterDecl declared) _

theorem isSome_enterAll {tables : String → Methods} {order : List String}
    {functions : String → Option Signature} (found : (functions key).isSome) :
    (enterAll tables order functions key).isSome := by
  induction order generalizing functions with
  | nil => exact found
  | cons iface order ih =>
      rw [enterAll, List.foldl_cons, ← enterAll]
      apply ih
      rw [enterMethods]
      generalize tables iface = methods
      induction methods generalizing functions with
      | nil => exact found
      | cons entry methods ih' => exact ih' (isSome_update.mpr (.inr found))

theorem adds_enterInterfaces (orders : Orders file) :
    Adds builtins file (enterAllDecls builtins file)
      (enterInterfaces file orders (enterAllDecls builtins file)) := by
  have functions : (enterInterfaces file orders (enterAllDecls builtins file)).tables.functions =
      enterAll (expandAll (enterAllDecls builtins file).tables.functions file orders).own
        orders.interfaceOrder (enterAllDecls builtins file).tables.functions := by
    simp only [enterInterfaces, registerDeclarations_eq]
    rw [(passing_expandAll orders).functions, registerAll_eq]
  constructor
  · exact fun kind _ _ found => .inl (by cases kind <;> exact found)
  · intro kind key found
    cases kind with
    | field => exact .inl found
    | method =>
        change ((enterInterfaces file orders _).tables.functions key).isSome at found
        rw [functions] at found
        by_cases entered : ∃ iface ∈ orders.interfaceOrder,
            ∃ entry ∈ (expandAll (enterAllDecls builtins file).tables.functions file orders).own
              iface, methodSymbol iface entry.1 = key
        · rcases entered with ⟨iface, -, entry, member, rfl⟩
          rcases sound_run (orders.visits _) iface entry member with ⟨far, family, declares⟩
          exact .inr (.inl (Entered.required ⟨far, family, List.mem_map_of_mem declares⟩))
        · rw [enterAll_other fun iface listed entry member same =>
            entered ⟨iface, listed, entry, member, same⟩] at found
          exact .inl found
  · exact fun kind _ found => by cases kind <;> exact found
  · intro kind key found
    cases kind with
    | field => exact found
    | method =>
        change ((enterInterfaces file orders _).tables.functions key).isSome
        rw [functions]
        exact isSome_enterAll found
  · exact fun _ _ found => .inl found

/-! ## Third pass -/

/-- A class declares a member itself, or something is known under the member's key. -/
def Taken (kind : MemberKind) (c : ClassDecl) (r : Registered) (name : Ident) : Prop :=
  ((kind.declared c).lookup name).isSome ∨ r.known kind (kind.key c.name name) = true

variable {name : Ident} {parent : String}

theorem Taken.adds (taken : Taken kind c r name) (adds : Adds builtins file r r') :
    Taken kind c r' name := by
  rcases taken with own | known
  · exact .inl own
  · exact .inr (adds.keepsKnown _ _ known)

theorem isSome_lookup {entries : List (String × α)} :
    (entries.lookup key).isSome ↔ key ∈ entries.map Prod.fst := by
  induction entries with
  | nil => simp
  | cons entry entries ih => rw [isSome_lookup_cons, ih, List.map_cons, List.mem_cons]

/-- One member is inherited unless its name is taken, and is taken then. -/
structure InheritsOne (builtins : String → Option Signature) (file : SourceFile)
    (kind : MemberKind) (c : ClassDecl) (step : Registered → Registered)
    (entry : Ident × Visibility) : Prop where
  adds : ∀ r, (¬ Taken kind c r entry.1 →
    Entered builtins file kind (kind.key c.name entry.1) (some entry.2)) →
      Adds builtins file r (step r)
  takes : ∀ r, Taken kind c (step r) entry.1

/-- The members of one ancestor, of which the first of each name counts. -/
theorem foldl_inherits {entry : α → Ident × Visibility}
    (inherits : ∀ item, InheritsOne builtins file kind c (fun r => step r item) (entry item))
    (before items : List α) (r : Registered)
    (reach : ∀ name visibility, ¬ Taken kind c r name → ((before ++ items).map entry).lookup name = some visibility → Entered builtins file kind (kind.key c.name name) (some visibility))
    (taken : ∀ item ∈ before, Taken kind c r (entry item).1) :
    Adds builtins file r (items.foldl step r) ∧
      ∀ item ∈ items, Taken kind c (items.foldl step r) (entry item).1 := by
  induction items generalizing before r with
  | nil => exact ⟨Adds.refl r, fun _ member => nomatch member⟩
  | cons item items ih =>
      have first : Adds builtins file r (step r item) := by
        apply (inherits item).adds
        intro free
        apply reach _ _ free
        have fresh : (before.map entry).lookup (entry item).1 = none := by
          rw [← Option.not_isSome_iff_eq_none, isSome_lookup, List.map_map]
          intro member
          rcases List.mem_map.mp member with ⟨other, earlier, same⟩
          exact free (same ▸ taken other earlier)
        rw [List.map_append, List.lookup_append, fresh, Option.none_or, List.map_cons]
        exact List.lookup_cons_self
      have later := ih (before ++ [item]) (step r item)
        (fun name visibility free found => reach name visibility (fun old => free (old.adds first))
          (by rw [List.append_assoc] at found; exact found))
        (fun other member => by
          rcases List.mem_append.mp member with old | new
          · exact (taken other old).adds first
          · rw [List.mem_singleton.mp new]
            exact (inherits item).takes r)
      refine ⟨first.trans later.1, fun other member => ?_⟩
      rcases List.mem_cons.mp member with rfl | member
      · exact ((inherits other).takes r).adds later.1
      · exact later.2 other member

theorem mem_declared_field : ((MemberKind.field.declared c).lookup name).isSome ↔
      (c.fields.map FieldDef.name).contains name = true := by
  rw [isSome_lookup, List.contains_iff_mem, MemberKind.declared, List.map_map]
  rfl

theorem mem_declared_method : ((MemberKind.method.declared c).lookup name).isSome ↔
      (c.methods.map Method.name).contains name = true := by
  rw [isSome_lookup, List.contains_iff_mem, MemberKind.declared, List.map_map]
  rfl

theorem eq_some_of_orInsert {found : α} (inserted : orInsert table key value other = some found) :
    other = key ∧ found = value ∨ table other = some found := by
  rw [orInsert] at inserted
  split at inserted
  · exact .inr inserted
  · exact eq_some_of_update inserted

theorem isSome_orInsert :
    (orInsert table key value other).isSome ↔ other = key ∨ (table other).isSome := by
  rw [orInsert]
  split
  · rename_i present
    constructor
    · exact .inr
    · rintro (rfl | found)
      · exact present
      · exact found
  · exact isSome_update

theorem inheritsOne_field (c : ClassDecl) (field : FieldDef) :
    InheritsOne builtins file .field c (fun r => inheritField c r field)
      (field.name, field.visibility) := by
  constructor
  · intro r entered
    simp only [inheritField]
    split
    · exact Adds.refl r
    · rename_i free
      have entered := entered fun taken => free (by
        rw [Bool.or_eq_true]
        rcases taken with own | known
        · exact .inl (mem_declared_field.mp own)
        · exact .inr known)
      refine Adds.shown entered (fun _ => isSome_lookup_cons) (fun _ _ => eq_some_of_orInsert)
        (fun _ => isSome_orInsert) (fun kind other => ?_) rfl
      cases kind with
      | method => exact ⟨rfl, rfl⟩
      | field => contradiction
  · intro r
    simp only [inheritField]
    split
    · rename_i taken
      rcases Bool.or_eq_true _ _ ▸ taken with own | known
      · exact .inl (mem_declared_field.mpr own)
      · exact .inr known
    · exact .inr (isSome_lookup_cons.mpr (.inl rfl))

theorem inheritsOne_method (c : ClassDecl) (method : Method) :
    InheritsOne builtins file .method c (fun r => inheritClassMethod c r method)
      (method.name, method.visibility) := by
  constructor
  · intro r entered
    simp only [inheritClassMethod]
    split
    · exact Adds.refl r
    · rename_i free
      have entered := entered fun taken => free (by
        rw [Bool.or_eq_true]
        rcases taken with own | known
        · exact .inl (mem_declared_method.mp own)
        · exact .inr known)
      refine (adds_insertUsesThis (stmtUsesThis method.body) (methodSymbol c.name method.name)).trans
        (Adds.shown entered (fun _ => isSome_update) (fun _ _ => eq_some_of_orInsert)
          (fun _ => isSome_orInsert) (fun kind other => ?_) rfl)
      cases kind with
      | field => exact ⟨rfl, rfl⟩
      | method => contradiction
  · intro r
    simp only [inheritClassMethod]
    split
    · rename_i taken
      rcases Bool.or_eq_true _ _ ▸ taken with own | known
      · exact .inl (mem_declared_method.mpr own)
      · exact .inr known
    · exact .inr (isSome_update.mpr (.inl rfl))

/-- Nothing that is not taken is inherited but what the classes from `parent` on declare. -/
def Reaches (builtins : String → Option Signature) (file : SourceFile) (c : ClassDecl)
    (r : Registered) (parent : String) : Prop :=
  ∀ kind name owner visibility, ¬ Taken kind c r name →
    DeclaredBy file kind name parent owner visibility →
      Entered builtins file kind (kind.key c.name name) (some visibility)

/-- Everything that a class declares is taken. -/
def AllTaken (c : ClassDecl) (r : Registered) (ancestor : ClassDecl) : Prop :=
  ∀ kind name, ((MemberKind.declared kind ancestor).lookup name).isSome → Taken kind c r name

theorem AllTaken.adds {ancestor : ClassDecl} (taken : AllTaken c r ancestor)
    (adds : Adds builtins file r r') : AllTaken c r' ancestor :=
  fun kind name declared => (taken kind name declared).adds adds

theorem inheritFrom_adds {ancestor : ClassDecl} (found : classMap file parent = some ancestor)
    (reaches : Reaches builtins file c r parent) :
    Adds builtins file r (inheritFrom c r ancestor) ∧ AllTaken c (inheritFrom c r ancestor) ancestor := by
  have oneField : ∀ field, InheritsOne builtins file .field c (fun r => inheritField c r field)
      (field.name, field.visibility) := inheritsOne_field c
  have oneMethod : ∀ method, InheritsOne builtins file .method c
      (fun r => inheritClassMethod c r method) (method.name, method.visibility) :=
    inheritsOne_method c
  have fields := foldl_inherits oneField [] ancestor.fields r
    (fun name visibility free declared =>
      reaches .field name parent visibility free (.own found declared))
    fun _ member => nomatch member
  have methods := foldl_inherits oneMethod [] ancestor.methods
    (ancestor.fields.foldl (inheritField c) r)
    (fun name visibility free declared =>
      reaches .method name parent visibility (fun old => free (old.adds fields.1))
        (.own found declared))
    fun _ member => nomatch member
  refine ⟨fields.1.trans methods.1, fun kind name declared => ?_⟩
  rw [isSome_lookup] at declared
  cases kind with
  | field =>
      rcases List.mem_map.mp declared with ⟨entry, member, rfl⟩
      rcases List.mem_map.mp member with ⟨field, listed, rfl⟩
      exact (fields.2 field listed).adds methods.1
  | method =>
      rcases List.mem_map.mp declared with ⟨entry, member, rfl⟩
      rcases List.mem_map.mp member with ⟨method, listed, rfl⟩
      exact methods.2 method listed

theorem walk_adds (fuel : Nat) {parent : Option Ident}
    (reaches : ∀ name, parent = some name → Reaches builtins file c r name) :
    Adds builtins file r ((ancestors file fuel parent).foldl (inheritFrom c) r) ∧
      ∀ ancestor ∈ ancestors file fuel parent,
        AllTaken c ((ancestors file fuel parent).foldl (inheritFrom c) r) ancestor := by
  induction fuel generalizing r parent with
  | zero =>
      rw [ancestors]
      · exact ⟨Adds.refl r, fun _ member => nomatch member⟩
      · exact fun _ _ absurd => nomatch absurd
  | succ fuel ih =>
      cases parent with
      | none =>
          rw [ancestors]
          · exact ⟨Adds.refl r, fun _ member => nomatch member⟩
          · exact fun _ _ _ absurd => nomatch absurd
      | some name =>
          rw [ancestors]
          cases found : classMap file name with
          | none => exact ⟨Adds.refl r, fun _ member => nomatch member⟩
          | some ancestor =>
              have reach := reaches name rfl
              rcases inheritFrom_adds found reach with ⟨adds, taken⟩
              have next : ∀ parent, ancestor.extends_ = some parent →
                  Reaches builtins file c (inheritFrom c r ancestor) parent := by
                intro parent extends_ kind member owner visibility free declared
                have absent : (kind.declared ancestor).lookup member = none :=
                  Option.not_isSome_iff_eq_none.mp fun own => free (taken kind member own)
                exact reach kind member owner visibility (fun old => free (old.adds adds))
                  (.inherited found absent extends_ declared)
              rcases ih next with ⟨later, all⟩
              refine ⟨adds.trans later, fun other member => ?_⟩
              rcases List.mem_cons.mp member with rfl | member
              · exact taken.adds later
              · exact all other member

theorem inheritClass_of_parent (extends_ : c.extends_ = some parent)
    (found : (classMap file parent).isSome) : inheritClass file r c = enterClassName c
      ((ancestors file (classesOf file).length c.extends_).foldl (inheritFrom c) r) := by
  have present : ¬ (classMap file parent).isNone := by simp [Option.isSome_iff_ne_none.mp found]
  rw [inheritClass, extends_]
  exact if_neg present

theorem adds_enterClassName (c : ClassDecl) : Adds builtins file r (enterClassName c r) :=
  Adds.of_eq rfl rfl rfl

theorem reaches_of_extends (named : classMap file c.name = some c)
    (extends_ : c.extends_ = some parent) : Reaches builtins file c r parent := by
  intro kind name owner visibility free declared
  have absent : (kind.declared c).lookup name = none :=
    Option.not_isSome_iff_eq_none.mp fun own => free (.inl own)
  exact Entered.inherited (.inherited named absent extends_ declared)

theorem inheritClass_taken (named : classMap file c.name = some c)
    (extends_ : c.extends_ = some parent) (found : (classMap file parent).isSome) :
    Adds builtins file r (inheritClass file r c) ∧
      ∀ ancestor ∈ ancestors file (classesOf file).length c.extends_,
        AllTaken c (inheritClass file r c) ancestor := by
  have reaches : ∀ name, c.extends_ = some name → Reaches builtins file c r name :=
    fun _ => reaches_of_extends named
  have named : ∀ r : Registered, Adds builtins file r (enterClassName c r) :=
    fun _ => adds_enterClassName c
  rcases walk_adds (classesOf file).length reaches with ⟨adds, taken⟩
  rw [inheritClass_of_parent extends_ found]
  exact ⟨adds.trans (named _), fun other member => (taken other member).adds (named _)⟩

theorem inheritClass_adds (named : classMap file c.name = some c) :
    Adds builtins file r (inheritClass file r c) := by
  cases extends_ : c.extends_ with
  | none =>
      rw [inheritClass, extends_]
      exact adds_enterClassName c
  | some parent =>
      cases found : classMap file parent with
      | some ancestor =>
          exact (inheritClass_taken named extends_ (by rw [found]; rfl)).1
      | none =>
          rw [inheritClass, extends_]
          simp only [found, Option.isNone_none, ↓reduceIte]
          exact Adds.of_eq rfl rfl rfl

theorem register_adds (orders : Orders file) (processing : Processing file) :
    Adds builtins file (newChecker builtins) (register builtins file orders processing) :=
  adds_enterAllDecls.trans ((adds_enterInterfaces orders).trans
    (Adds.foldl _ (fun _ c member => inheritClass_adds (processing.classes c member)) _))

/-! ## Declared members are registered -/

variable {owner className : String}

theorem mem_of_classMap {name : String} (found : classMap file name = some c) :
    c ∈ classesOf file ∧ c.name = name := by
  have named := List.find?_some found
  exact ⟨List.mem_reverse.mp (List.mem_of_find?_eq_some found), eq_of_beq named⟩

theorem known_foldl {items : List α}
    (adds : ∀ r, ∀ item ∈ items, Adds builtins file r (step r item)) {item : α}
    (member : item ∈ items) (sets : ∀ r, (step r item).known kind key = true) (r : Registered) :
    (items.foldl step r).known kind key = true := by
  rcases List.append_of_mem member with ⟨before, after, rfl⟩
  rw [List.foldl_append, List.foldl_cons]
  have later := Adds.foldl after (fun r other listed => adds r other
    (List.mem_append_right before (List.mem_cons_of_mem item listed)))
    (step (before.foldl step r) item)
  exact later.keepsKnown kind key (sets _)

theorem known_registerField (className : String) (r : Registered) (field : FieldDef) :
    (registerField className r field).known .field (fieldKey className field.name) = true :=
  isSome_lookup_cons.mpr (.inl rfl)

theorem known_registerMethod (c : ClassDecl) (r : Registered) (method : Method) :
    (registerMethod c r method).known .method (methodSymbol c.name method.name) = true :=
  isSome_update.mpr (.inl rfl)

theorem known_registerClass (declared : c ∈ classesOf file) {entry : Ident × Visibility}
    (member : entry ∈ kind.declared c) (r : Registered) :
    (registerClass r c).known kind (kind.key c.name entry.1) = true := by
  -- which functions are built in does not matter here
  let none' : String → Option Signature := fun _ => none
  have json : ∀ r, Adds none' file r (registerJson c r) := fun _ => adds_registerJson declared
  have log : ∀ r, Adds none' file r (registerLog c r) := fun _ => adds_registerLog declared
  have fields : ∀ r, ∀ field ∈ c.fields, Adds none' file r (registerField c.name r field) :=
    fun _ _ listed => adds_registerField declared listed
  have methods : ∀ r, ∀ method ∈ c.methods, Adds none' file r (registerMethod c r method) :=
    fun _ _ listed => adds_registerMethod declared listed
  rw [registerClass]
  apply (json _).keepsKnown
  cases kind with
  | field =>
      rcases List.mem_map.mp member with ⟨field, listed, rfl⟩
      apply (Adds.foldl c.methods methods _).keepsKnown
      apply (log _).keepsKnown
      exact known_foldl fields listed (fun r => known_registerField c.name r field) _
  | method =>
      rcases List.mem_map.mp member with ⟨method, listed, rfl⟩
      exact known_foldl methods listed (fun r => known_registerMethod c r method) _

/-- The walk from a class upwards ends. -/
def Grounded (file : SourceFile) : String → Prop :=
  Acc fun parent child => ∃ c, classMap file child = some c ∧ c.extends_ = some parent

theorem Grounded.processed {name : String} (grounded : Grounded file name)
    (processing : Processing file) (found : classMap file name = some c) :
    c ∈ processing.order := by
  induction grounded generalizing c with
  | intro name _ ih =>
      apply processing.complete name c found
      intro parent extends_ present
      rcases Option.isSome_iff_exists.mp present with ⟨above, aboveFound⟩
      have listed := ih parent ⟨c, found, extends_⟩ aboveFound
      exact (mem_of_classMap aboveFound).2 ▸ List.mem_map_of_mem listed

/-- The walk meets the class that declares a member, if it may be as long as the list of the
classes processed so far. -/
theorem ancestor_of_declaredBy (processing : Processing file)
    (declared : DeclaredBy file kind name parent owner visibility) {fuel : Nat}
    (earlier : parent ∈ (processing.order.take fuel).map ClassDecl.name) :
    ∃ ancestor ∈ ancestors file fuel (some parent),
      ((kind.declared ancestor).lookup name).isSome := by
  induction declared generalizing fuel with
  | own found here =>
      cases fuel with
      | zero => exact absurd earlier List.not_mem_nil
      | succ fuel =>
          rw [ancestors, found]
          exact ⟨_, List.mem_cons_self, by rw [here]; rfl⟩
  | @inherited className parent owner c visibility found _ extends_ above ih =>
      cases fuel with
      | zero => exact absurd earlier List.not_mem_nil
      | succ fuel =>
          rcases List.mem_map.mp earlier with ⟨c', listed, named⟩
          have same := processing.classes c' (List.mem_of_mem_take listed)
          rw [named, found] at same
          cases same
          rcases List.append_of_mem listed with ⟨before, after, split⟩
          have whole : processing.order = before ++ c ::
              (after ++ processing.order.drop (fuel + 1)) := by
            rw [← List.cons_append, ← List.append_assoc, ← split, List.take_append_drop]
          have present : (classMap file parent).isSome := by
            cases above with
            | own found _ | inherited found _ _ _ => rw [found]; rfl
          have first := processing.parentsFirst before c _ parent whole extends_ present
          have short : before.length ≤ fuel := by
            have lengths := congrArg List.length split
            rw [List.length_take, List.length_append, List.length_cons] at lengths
            omega
          have within : before <+: processing.order.take fuel := by
            rw [List.prefix_take_iff, whole]
            exact ⟨List.prefix_append _ _, short⟩
          rcases ih (List.map_subset _ within.subset first) with ⟨ancestor, member, declares⟩
          rw [ancestors, found]
          exact ⟨ancestor, List.mem_cons_of_mem _ (extends_ ▸ member), declares⟩

theorem Processing.length_le (processing : Processing file) :
    processing.order.length ≤ (classesOf file).length := by
  have distinct : processing.order.Nodup := processing.nodup.of_map
  have subset : processing.order ⊆ classesOf file :=
    fun c listed => (mem_of_classMap (processing.classes c listed)).1
  exact (List.subperm_of_subset distinct subset).length_le

theorem DeclaredBy.found {kind : MemberKind} {name : Ident} {className owner : String}
    {visibility : Visibility} (declared : DeclaredBy file kind name className owner visibility) :
    ∃ c, classMap file className = some c := by
  cases declared with
  | own found _ | inherited found _ _ _ => exact ⟨_, found⟩

theorem known_enterAllDecls (declared : c ∈ classesOf file) {entry : Ident × Visibility}
    (member : entry ∈ kind.declared c) :
    (enterAllDecls builtins file).known kind (kind.key c.name entry.1) = true := by
  have adds : ∀ r, ∀ decl ∈ flattenDecls file, Adds builtins file r (enterDecl r decl) :=
    fun _ _ listed => adds_enterDecl listed
  exact known_foldl adds (mem_classesOf.mp declared)
    (fun r => known_registerClass declared member r) _

theorem known_of_declaredBy (orders : Orders file) (processing : Processing file)
    (grounded : Grounded file className)
    (declared : DeclaredBy file kind name className owner visibility) :
    (register builtins file orders processing).known kind (kind.key className name) = true := by
  have adds : ∀ r, ∀ c ∈ processing.order, Adds builtins file r (inheritClass file r c) :=
    fun _ c listed => inheritClass_adds (processing.classes c listed)
  cases declared with
  | @own _ c _ found here =>
      rcases mem_of_classMap found with ⟨listed, rfl⟩
      have named : name ∈ (kind.declared c).map Prod.fst := isSome_lookup.mp (by rw [here]; rfl)
      rcases List.mem_map.mp named with ⟨entry, member, rfl⟩
      have first : (enterAllDecls builtins file).known kind (kind.key c.name entry.1) = true :=
        known_enterAllDecls listed member
      exact (Adds.foldl _ adds _).keepsKnown _ _ ((adds_enterInterfaces orders).keepsKnown _ _ first)
  | @inherited _ parent _ c _ found absent extends_ above =>
      have listed := grounded.processed processing found
      rcases mem_of_classMap found with ⟨-, rfl⟩
      apply known_foldl adds listed
      intro r
      rcases above.found with ⟨other, otherFound⟩
      have present : (classMap file parent).isSome := by rw [otherFound]; rfl
      have earlier : parent ∈ (processing.order.take (classesOf file).length).map ClassDecl.name := by
        have groundedParent : Grounded file parent := grounded.inv ⟨c, found, extends_⟩
        have otherListed := groundedParent.processed processing otherFound
        rw [List.take_of_length_le processing.length_le]
        exact (mem_of_classMap otherFound).2 ▸ List.mem_map_of_mem otherListed
      rcases ancestor_of_declaredBy processing above earlier with ⟨ancestor, member, declares⟩
      have step : Adds builtins file r (inheritClass file r c) ∧ _ :=
        inheritClass_taken found extends_ present
      rcases step.2 ancestor (extends_ ▸ member) kind name declares with own | known
      · rw [absent] at own
        contradiction
      · exact known

/-- A declared member has its visibility in the tables, if nothing else is registered under its
key. -/
theorem visibility_of_declaredBy (orders : Orders file) (processing : Processing file)
    (grounded : Grounded file className)
    (declared : DeclaredBy file kind name className owner visibility)
    (alone : ∀ shown, Entered builtins file kind (kind.key className name) shown → shown = some visibility) :
    (register builtins file orders processing).visibility kind (kind.key className name) =
      some visibility := by
  have adds : Adds builtins file (newChecker builtins) (register builtins file orders processing) :=
    register_adds orders processing
  have shown : ((register builtins file orders processing).visibility kind
      (kind.key className name)).isSome := by
    rcases adds.known kind _ (known_of_declaredBy orders processing grounded declared) with
      first | entered | shown
    · cases kind with
      | field => contradiction
      | method => exact absurd (alone none (.builtin first)) (Option.some_ne_none visibility).symm
    · exact absurd (alone none entered) (Option.some_ne_none visibility).symm
    · exact shown
  rcases Option.isSome_iff_exists.mp shown with ⟨found, isFound⟩
  rcases adds.visibility kind _ found isFound with first | entered
  · cases kind <;> contradiction
  · exact isFound.trans (alone _ entered)

theorem extends_of_classParents (orders : Orders file) (processing : Processing file)
    {child : String}
    (listed : (child, parent) ∈ (register builtins file orders processing).tables.classParents) :
    Extends file child parent := by
  have adds : Adds builtins file (newChecker builtins) (register builtins file orders processing) :=
    register_adds orders processing
  rcases adds.parents child parent listed with first | extends_
  · exact absurd first List.not_mem_nil
  · exact extends_

theorem DeclaredBy.extends_ (declared : DeclaredBy file kind name className owner visibility) :
    Relation.ReflTransGen (Extends file) className owner := by
  induction declared with
  | own _ _ => exact .refl
  | inherited found _ parent _ ih =>
      rcases mem_of_classMap found with ⟨listed, named⟩
      exact .head ⟨_, listed, named, parent⟩ ih

end Tinox.Check
