import Mathlib.Logic.Function.Basic
import Mathlib.Data.List.Nodup
import Tinox.Syntax.Ast

/-!
# Injected components

The getters and factories that are generated for components: a component with
an application-wide scope has one instance behind a getter, a request-scoped
one a factory.  Both allocate the object and then fill its `@Inject` fields.
-/

namespace Tinox.Codegen.Injection

open Tinox.Syntax

/-- `DiScope`. -/
inductive DiScope where
  | application | startup | httpRequest
  deriving DecidableEq

/-- `DiInjectField`. -/
structure DiInjectField where
  fieldName : Ident
  fieldType : Ident

/-- `DiComponentInfo`. -/
structure DiComponent where
  className : Ident
  scope : DiScope
  injectFields : List DiInjectField

/-- The component has one instance behind a getter. -/
def DiComponent.shared (c : DiComponent) : Bool :=
  c.scope ≠ .httpRequest

/-- The scope of a class; the last annotation counts. -/
def diScope (annotations : List Annotation) : Option DiScope :=
  annotations.foldl (fun scope annotation =>
    if annotation.name = "ApplicationComponent" then some .application
    else if annotation.name = "Startup" then some .startup
    else if annotation.name = "HttpRequestScoped" then some .httpRequest
    else scope) none

/-- The field carries `@Inject`. -/
def isInject (field : FieldDef) : Bool :=
  field.annotations.any fun annotation => annotation.name = "Inject"

/-- `collect_inject_fields`; fields of other than named types are skipped. -/
def collectInjectFields (fields : List FieldDef) : List DiInjectField :=
  (fields.filter isInject).filterMap fun field =>
    match field.fieldType with
    | .named typeName => some ⟨field.name, typeName⟩
    | _ => none

/-- The components of the classes of a program (`di_components`). -/
def diComponents (classes : List ClassDecl) : List DiComponent :=
  classes.filterMap fun c =>
    (diScope c.annotations).map fun scope => ⟨c.name, scope, collectInjectFields c.fields⟩

/-- References. -/
abbrev Ref := Nat

/-- An object with its injected fields, and the request during which it was
created (`none` before all requests). -/
structure Object where
  className : Ident
  fields : Ident → Option Ref
  owner : Option Nat

/-- All objects, and the instances of shared components (`_di_instance`). -/
structure Heap where
  size : Nat
  objects : Ref → Option Object
  instances : Ident → Option Ref

namespace Heap

/-- No object yet. -/
def empty : Heap := ⟨0, fun _ => none, fun _ => none⟩

/-- A new object, at the reference `size`. -/
def alloc (h : Heap) (className : Ident) (owner : Option Nat) : Heap :=
  { h with
    size := h.size + 1
    objects := Function.update h.objects h.size (some ⟨className, fun _ => none, owner⟩) }

/-- Store a reference in a field. -/
def store (h : Heap) (r : Ref) (field : Ident) (value : Ref) : Heap :=
  match h.objects r with
  | some o =>
      { h with
        objects := Function.update h.objects r
          (some { o with fields := Function.update o.fields field (some value) }) }
  | none => h

/-- Make an object the instance of a shared component. -/
def register (h : Heap) (className : Ident) (r : Ref) : Heap :=
  { h with instances := Function.update h.instances className (some r) }

end Heap

section Generated

variable (comps : List DiComponent) (owner : Option Nat)

/-- Fill the `@Inject` fields of a new object. -/
def injectAll (provide : DiComponent → Heap → Option (Ref × Heap)) (r : Ref) :
    List DiInjectField → Heap → Option Heap
  | [], h => some h
  | field :: fields, h =>
      match comps.find? (·.className = field.fieldType) with
      | none => none
      | some dep =>
          match provide dep h with
          | none => none
          | some (value, h) => injectAll provide r fields (h.store r field.fieldName value)

/-- `X_di_get` of a shared component, which creates the instance on the first
call, and `X_di_create` of a request-scoped one (`emit_di_code`).  The fuel bounds
the depth of the calls. -/
def provide : Nat → DiComponent → Heap → Option (Ref × Heap)
  | 0, _, _ => none
  | fuel + 1, c, h =>
      match if c.shared then h.instances c.className else none with
      | some r => some (r, h)
      | none =>
          match injectAll comps (provide fuel) h.size c.injectFields
              (h.alloc c.className owner) with
          | none => none
          | some filled =>
              some (h.size, if c.shared then filled.register c.className h.size else filled)

end Generated

/-- The components are named once, all injected types are components, each field
is injected once, and no component needs itself to be created. -/
structure Wired (comps : List DiComponent) : Prop where
  unique : ∀ c ∈ comps, ∀ d ∈ comps, c.className = d.className → c = d
  linked : ∀ c ∈ comps, ∀ field ∈ c.injectFields, ∃ d ∈ comps, d.className = field.fieldType
  fieldNames : ∀ c ∈ comps, (c.injectFields.map (·.fieldName)).Nodup
  acyclic : ∃ rank : Ident → Nat, ∀ c ∈ comps, ∀ field ∈ c.injectFields,
    rank field.fieldType < rank c.className

section Invariant

variable (comps : List DiComponent)

/-- A value for a field of an object with this owner: an object of the field's
type, the instance for a shared one, created for the same request otherwise. -/
structure Supplies (h : Heap) (owner : Option Nat) (field : DiInjectField) (value : Ref)
    (target : Object) : Prop where
  found : h.objects value = some target
  typed : target.className = field.fieldType
  instance_ : ∀ d ∈ comps, d.className = field.fieldType → d.shared = true →
    h.instances field.fieldType = some value
  owned : ∀ d ∈ comps, d.className = field.fieldType → d.shared = false → target.owner = owner

/-- An object whose class is a component has its fields filled, and nothing else. -/
structure Complete (h : Heap) (o : Object) : Prop where
  filled : ∀ c ∈ comps, c.className = o.className → ∀ field ∈ c.injectFields,
    ∃ value target, o.fields field.fieldName = some value ∧
      Supplies comps h o.owner field value target
  only : ∀ name value, o.fields name = some value → ∃ c ∈ comps, c.className = o.className ∧
    ∃ field ∈ c.injectFields, field.fieldName = name

/-- The heap, except for objects that are being filled. -/
structure Good (pending : Ref → Prop) (h : Heap) : Prop where
  bounded : ∀ r, h.size ≤ r → h.objects r = none
  complete : ∀ r o, h.objects r = some o → ¬ pending r → Complete comps h o
  single : ∀ r o, h.objects r = some o → ¬ pending r →
    ∀ c ∈ comps, c.className = o.className → c.shared = true → h.instances o.className = some r
  registered : ∀ className r, h.instances className = some r →
    ∃ o, h.objects r = some o ∧ o.className = className ∧ ¬ pending r

end Invariant

/-- Objects and instances stay, except for the fields of some objects. -/
structure Kept (changed : Ref → Prop) (h later : Heap) : Prop where
  objects : ∀ r o, h.objects r = some o → ∃ o', later.objects r = some o' ∧
    o'.className = o.className ∧ o'.owner = o.owner ∧ (¬ changed r → o' = o)
  instances : ∀ className r, h.instances className = some r →
    later.instances className = some r

variable {changed : Ref → Prop} {h later : Heap} {r value : Ref} {o target : Object}
  {comps : List DiComponent} {owner : Option Nat} {field : DiInjectField}

namespace Kept

theorem refl (changed : Ref → Prop) (h : Heap) : Kept changed h h :=
  ⟨fun _ o found => ⟨o, found, rfl, rfl, fun _ => rfl⟩, fun _ _ found => found⟩

theorem trans {middle : Heap} (first : Kept changed h middle) (second : Kept changed middle later) :
    Kept changed h later where
  objects r o found := by
    rcases first.objects r o found with ⟨o', found', class', owner', same'⟩
    rcases second.objects r o' found' with ⟨o'', found'', class'', owner'', same''⟩
    refine ⟨o'', found'', class''.trans class', owner''.trans owner', fun unchanged => ?_⟩
    rw [same'' unchanged, same' unchanged]
  instances className r found := second.instances _ _ (first.instances _ _ found)

theorem mono {more : Ref → Prop} (kept : Kept changed h later) (wider : ∀ r, changed r → more r) :
    Kept more h later where
  objects r o found := by
    rcases kept.objects r o found with ⟨o', found', class', owner', same'⟩
    exact ⟨o', found', class', owner', fun unchanged => same' fun c => unchanged (wider r c)⟩
  instances := kept.instances

theorem unchanged (kept : Kept changed h later) (found : h.objects r = some o) (same : ¬ changed r) :
    later.objects r = some o := by
  rcases kept.objects r o found with ⟨o', found', -, -, equal⟩
  rw [found', equal same]

theorem supplies (kept : Kept changed h later)
    (supplied : Supplies comps h owner field value target) :
    ∃ target', Supplies comps later owner field value target' := by
  rcases kept.objects value target supplied.found with ⟨target', found', class', owner', -⟩
  refine ⟨target', found', class'.trans supplied.typed, ?_, ?_⟩
  · intro d member named shared
    exact kept.instances _ _ (supplied.instance_ d member named shared)
  · intro d member named notShared
    exact owner'.trans (supplied.owned d member named notShared)

theorem complete (kept : Kept changed h later) (complete : Complete comps h o) :
    Complete comps later o where
  filled c member named field fieldMember := by
    rcases complete.filled c member named field fieldMember with ⟨value, target, held, supplied⟩
    rcases kept.supplies supplied with ⟨target', supplied'⟩
    exact ⟨value, target', held, supplied'⟩
  only := complete.only

end Kept

variable {pending : Ref → Prop}

theorem store_eq (found : h.objects r = some o) (field : Ident) (value : Ref) :
    h.store r field value =
      { h with
        objects := Function.update h.objects r
          (some { o with fields := Function.update o.fields field (some value) }) } := by
  simp only [Heap.store, found]

theorem kept_store (found : h.objects r = some o) (field : Ident) (value : Ref) :
    Kept (· = r) h (h.store r field value) := by
  rw [store_eq found]
  constructor
  · intro r' o' found'
    by_cases same : r' = r
    · subst same
      rw [found] at found'
      injection found' with found'
      subst found'
      exact ⟨_, Function.update_self .., rfl, rfl, fun unchanged => absurd rfl unchanged⟩
    · exact ⟨o', (Function.update_of_ne same ..).trans found', rfl, rfl, fun _ => rfl⟩
  · exact fun _ _ registered => registered

theorem Good.store (good : Good comps pending h) (found : h.objects r = some o)
    (isPending : pending r) (field : Ident) (value : Ref) :
    Good comps pending (h.store r field value) := by
  have kept := kept_store found field value
  rw [store_eq found] at kept ⊢
  have settled : ∀ {r' : Ref} {o' : Object}, ¬ pending r' →
      Function.update h.objects r
        (some { o with fields := Function.update o.fields field (some value) }) r' = some o' →
      h.objects r' = some o' := by
    intro r' o' notPending found'
    have apart : r' ≠ r := fun same => notPending (same ▸ isPending)
    rwa [Function.update_of_ne apart] at found'
  constructor
  · intro r' outside
    have apart : r' ≠ r := by
      rintro rfl
      rw [good.bounded r' outside] at found
      cases found
    exact (Function.update_of_ne apart ..).trans (good.bounded r' outside)
  · intro r' o' found' notPending
    exact kept.complete (good.complete r' o' (settled notPending found') notPending)
  · intro r' o' found' notPending
    exact good.single r' o' (settled notPending found') notPending
  · intro className r' registered
    rcases good.registered className r' registered with ⟨o', found', named, notPending⟩
    have apart : r' ≠ r := fun same => notPending (same ▸ isPending)
    exact ⟨o', (Function.update_of_ne apart ..).trans found', named, notPending⟩

theorem Good.kept_alloc (good : Good comps pending h) (className : Ident) (owner : Option Nat) :
    Kept (fun _ => False) h (h.alloc className owner) := by
  constructor
  · intro r o found
    have apart : r ≠ h.size := by
      rintro rfl
      rw [good.bounded _ (Nat.le_refl _)] at found
      cases found
    exact ⟨o, (Function.update_of_ne apart ..).trans found, rfl, rfl, fun _ => rfl⟩
  · exact fun _ _ registered => registered

theorem Good.alloc (good : Good comps pending h) (className : Ident) (owner : Option Nat) :
    Good comps (fun r => pending r ∨ r = h.size) (h.alloc className owner) := by
  have kept := good.kept_alloc className owner
  have settled : ∀ {r : Ref} {o : Object}, ¬ (pending r ∨ r = h.size) →
      (h.alloc className owner).objects r = some o → h.objects r = some o := by
    intro r o notPending found
    have apart : r ≠ h.size := fun same => notPending (Or.inr same)
    exact (Function.update_of_ne apart ..).symm.trans found
  constructor
  · intro r outside
    have apart : r ≠ h.size := by
      rintro rfl
      exact absurd outside (Nat.not_succ_le_self _)
    exact (Function.update_of_ne apart ..).trans
      (good.bounded r (Nat.le_of_succ_le outside))
  · intro r o found notPending
    exact kept.complete
      (good.complete r o (settled notPending found) fun p => notPending (Or.inl p))
  · intro r o found notPending
    exact good.single r o (settled notPending found) fun p => notPending (Or.inl p)
  · intro name r registered
    rcases good.registered name r registered with ⟨o, found, named, notPending⟩
    rcases kept.objects r o found with ⟨o', found', -, -, same⟩
    refine ⟨o', found', ?_, ?_⟩
    · rw [same id, named]
    · rintro (isPending | rfl)
      · exact notPending isPending
      · rw [good.bounded _ (Nat.le_refl _)] at found
        cases found

variable {c : DiComponent} {call : DiComponent → Heap → Option (Ref × Heap)}

section Calls

variable {comps : List DiComponent} {owner : Option Nat} {rank : Ident → Nat}

/-- What a call for a component gives: an object of the component, in a heap
where only instances of components that come first may be new. -/
structure Provided (comps : List DiComponent) (owner : Option Nat) (rank : Ident → Nat)
    (pending : Ref → Prop) (c : DiComponent) (h : Heap) (r : Ref) (later : Heap) (o : Object) :
    Prop where
  kept : Kept (fun _ => False) h later
  good : Good comps pending later
  found : later.objects r = some o
  typed : o.className = c.className
  settled : ¬ pending r
  instance_ : c.shared = true → later.instances c.className = some r
  owned : c.shared = false → o.owner = owner
  above : ∀ name, rank c.className < rank name → later.instances name = h.instances name

/-- Objects that are being filled come after this rank. -/
def PendingAbove (rank : Ident → Nat) (pending : Ref → Prop) (h : Heap) (bound : Nat) : Prop :=
  ∀ r, pending r → ∃ o, h.objects r = some o ∧ bound < rank o.className

theorem PendingAbove.kept {bound : Nat} (above : PendingAbove rank pending h bound)
    (kept : Kept changed h later) : PendingAbove rank pending later bound := by
  intro r isPending
  rcases above r isPending with ⟨o, found, higher⟩
  rcases kept.objects r o found with ⟨o', found', named, -, -⟩
  exact ⟨o', found', named ▸ higher⟩

/-- Calls for a component succeed in every good heap. -/
def Provides (comps : List DiComponent) (owner : Option Nat) (rank : Ident → Nat)
    (call : DiComponent → Heap → Option (Ref × Heap)) (d : DiComponent) : Prop :=
  ∀ h pending, Good comps pending h → PendingAbove rank pending h (rank d.className) →
    ∃ r later o, call d h = some (r, later) ∧ Provided comps owner rank pending d h r later o

/-- The fields of an object that have been filled so far. -/
structure FilledSoFar (comps : List DiComponent) (owner : Option Nat) (c : DiComponent) (r : Ref)
    (done : List DiInjectField) (h : Heap) (o : Object) : Prop where
  found : h.objects r = some o
  typed : o.className = c.className
  owned : o.owner = owner
  filled : ∀ field ∈ done, ∃ value target, o.fields field.fieldName = some value ∧
    Supplies comps h owner field value target
  only : ∀ name value, o.fields name = some value → ∃ field ∈ done, field.fieldName = name

theorem Provided.supplies {d : DiComponent}
    (unique : ∀ c ∈ comps, ∀ d ∈ comps, c.className = d.className → c = d) (member : d ∈ comps)
    (provided : Provided comps owner rank pending d h value later target)
    (named : d.className = field.fieldType) : Supplies comps later owner field value target where
  found := provided.found
  typed := provided.typed.trans named
  instance_ e eMember eNamed shared := by
    have same := unique e eMember d member (eNamed.trans named.symm)
    subst same
    exact named ▸ provided.instance_ shared
  owned e eMember eNamed notShared := by
    have same := unique e eMember d member (eNamed.trans named.symm)
    subst same
    exact provided.owned notShared

theorem FilledSoFar.store {done : List DiInjectField} (soFar : FilledSoFar comps owner c r done h o)
    (supplied : Supplies comps h owner field value target)
    (fresh : ∀ earlier ∈ done, earlier.fieldName ≠ field.fieldName) :
    FilledSoFar comps owner c r (done ++ [field]) (h.store r field.fieldName value)
      { o with fields := Function.update o.fields field.fieldName (some value) } := by
  have kept := kept_store soFar.found field.fieldName value
  constructor
  · rw [store_eq soFar.found]
    exact Function.update_self ..
  · exact soFar.typed
  · exact soFar.owned
  · intro filledField member
    rcases List.mem_append.mp member with member | member
    · rcases soFar.filled filledField member with ⟨old, oldTarget, held, oldSupplied⟩
      rcases kept.supplies oldSupplied with ⟨newTarget, newSupplied⟩
      exact ⟨old, newTarget, (Function.update_of_ne (fresh _ member) ..).trans held, newSupplied⟩
    · rcases List.mem_singleton.mp member with rfl
      rcases kept.supplies supplied with ⟨newTarget, newSupplied⟩
      exact ⟨value, newTarget, Function.update_self .., newSupplied⟩
  · intro name held isHeld
    by_cases same : name = field.fieldName
    · exact ⟨field, List.mem_append_right _ List.mem_cons_self, same.symm⟩
    · simp only [Function.update_of_ne same] at isHeld
      rcases soFar.only name held isHeld with ⟨earlier, member, named⟩
      exact ⟨earlier, List.mem_append_left _ member, named⟩

theorem injectAll_filled (wired : Wired comps) (member : c ∈ comps)
    (ranked : ∀ field ∈ c.injectFields, rank field.fieldType < rank c.className)
    (provides : ∀ d ∈ comps, rank d.className < rank c.className → Provides comps owner rank call d)
    (isPending : pending r) (fields done : List DiInjectField)
    (split : c.injectFields = done ++ fields) (good : Good comps pending h)
    (above : ∀ bound < rank c.className, PendingAbove rank pending h bound)
    (soFar : FilledSoFar comps owner c r done h o) :
    ∃ later o', injectAll comps call r fields h = some later ∧ Kept (· = r) h later ∧
      Good comps pending later ∧ FilledSoFar comps owner c r c.injectFields later o' ∧
      ∀ name, rank c.className ≤ rank name → later.instances name = h.instances name := by
  induction fields generalizing done h o with
  | nil =>
      rw [List.append_nil] at split
      exact ⟨h, o, rfl, Kept.refl _ h, good, split ▸ soFar, fun _ _ => rfl⟩
  | cons field fields ih =>
      have fieldMember : field ∈ c.injectFields := by
        rw [split]
        exact List.mem_append_right _ List.mem_cons_self
      have lower := ranked field fieldMember
      rcases wired.linked c member field fieldMember with ⟨e, eMember, eNamed⟩
      cases depFound : comps.find? (·.className = field.fieldType) with
      | none =>
          have absent := List.find?_eq_none.mp depFound e eMember
          exact absurd eNamed (by simpa using absent)
      | some d =>
          have dMember := List.mem_of_find?_eq_some depFound
          have dNamed : d.className = field.fieldType := by
            simpa using List.find?_some depFound
          rcases provides d dMember (dNamed ▸ lower) h pending good
            (above _ (dNamed ▸ lower)) with ⟨value, middle, target, called, provided⟩
          have supplied := provided.supplies wired.unique dMember dNamed
          have still : FilledSoFar comps owner c r done middle o := by
            refine ⟨provided.kept.unchanged soFar.found id, soFar.typed, soFar.owned, ?_,
              soFar.only⟩
            intro earlier earlierMember
            rcases soFar.filled earlier earlierMember with ⟨old, oldTarget, held, oldSupplied⟩
            rcases provided.kept.supplies oldSupplied with ⟨newTarget, newSupplied⟩
            exact ⟨old, newTarget, held, newSupplied⟩
          have fresh : ∀ earlier ∈ done, earlier.fieldName ≠ field.fieldName := by
            have distinct := wired.fieldNames c member
            rw [split, List.map_append, List.map_cons] at distinct
            intro earlier earlierMember same
            exact (List.nodup_append.mp distinct).2.2 _ (List.mem_map_of_mem earlierMember) _
              List.mem_cons_self same
          have keptStore := kept_store still.found field.fieldName value
          have keptBoth : Kept (· = r) h (middle.store r field.fieldName value) :=
            (provided.kept.mono fun _ never => never.elim).trans keptStore
          rcases ih (done ++ [field]) (by rw [split, List.append_assoc, List.singleton_append])
            (provided.good.store still.found isPending field.fieldName value)
            (fun bound below => (above bound below).kept keptBoth) (still.store supplied fresh) with
            ⟨later, o', filled, kept, goodLater, allFilled, instancesSame⟩
          refine ⟨later, o', ?_, keptBoth.trans kept, goodLater, allFilled, ?_⟩
          · simp only [injectAll, depFound, called, filled]
          · intro name higher
            rw [instancesSame name higher, store_eq still.found]
            exact provided.above name (Nat.lt_of_lt_of_le (dNamed ▸ lower) higher)

theorem FilledSoFar.complete (unique : ∀ c ∈ comps, ∀ d ∈ comps, c.className = d.className → c = d)
    (member : c ∈ comps) (soFar : FilledSoFar comps owner c r c.injectFields h o) :
    Complete comps h o where
  filled d dMember named field fieldMember := by
    have same := unique d dMember c member (named.trans soFar.typed)
    subst same
    rw [soFar.owned]
    exact soFar.filled field fieldMember
  only name value held := by
    rcases soFar.only name value held with ⟨field, fieldMember, named⟩
    exact ⟨c, member, soFar.typed.symm, field, fieldMember, named⟩

theorem kept_register {className : Ident} (fresh : h.instances className = none) (r : Ref) :
    Kept (fun _ => False) h (h.register className r) := by
  constructor
  · exact fun _ o found => ⟨o, found, rfl, rfl, fun _ => rfl⟩
  · intro name old registered
    have apart : name ≠ className := by
      rintro rfl
      rw [fresh] at registered
      cases registered
    exact (Function.update_of_ne apart ..).trans registered

/-- Once its fields are filled, a new object is given out, and registered when it
is shared. -/
theorem provided_of_filled (wired : Wired comps) (member : c ∈ comps) (good : Good comps pending h)
    (above : PendingAbove rank pending h (rank c.className))
    (fresh : c.shared = true → h.instances c.className = none)
    (kept : Kept (· = h.size) (h.alloc c.className owner) later)
    (goodLater : Good comps (fun r => pending r ∨ r = h.size) later)
    (filled : FilledSoFar comps owner c h.size c.injectFields later o)
    (same : ∀ name, rank c.className ≤ rank name → later.instances name = h.instances name) :
    Provided comps owner rank pending c h h.size
      (if c.shared then later.register c.className h.size else later) o := by
  have absent : h.objects h.size = none := good.bounded _ (Nat.le_refl _)
  have settled : ¬ pending h.size := by
    intro isPending
    rcases above _ isPending with ⟨old, found, -⟩
    rw [absent] at found
    cases found
  have keptAll : Kept (fun _ => False) h later := by
    have both := ((good.kept_alloc c.className owner).mono fun _ never => never.elim).trans kept
    refine ⟨fun r old found => ?_, both.instances⟩
    have apart : r ≠ h.size := by
      rintro rfl
      rw [absent] at found
      cases found
    exact ⟨old, both.unchanged found apart, rfl, rfl, fun _ => rfl⟩
  -- Another object of the class would have been registered.
  have onlyOne : c.shared = true → ∀ r old, later.objects r = some old → ¬ pending r →
      old.className = c.className → r = h.size := by
    intro shared r old found notPending named
    by_contra apart
    have registered := goodLater.single r old found
      (fun isPending => isPending.elim notPending apart) c member named.symm shared
    rw [named, same _ (Nat.le_refl _), fresh shared] at registered
    cases registered
  have complete : ∀ r old, later.objects r = some old → ¬ pending r → Complete comps later old := by
    intro r old found notPending
    by_cases isNew : r = h.size
    · subst isNew
      rw [filled.found] at found
      injection found with found
      subst found
      exact filled.complete wired.unique member
    · exact goodLater.complete r old found fun isPending => isPending.elim notPending isNew
  cases shared : c.shared with
  | false =>
      simp only [Bool.false_eq_true, if_false]
      refine ⟨keptAll, ⟨goodLater.bounded, complete, ?_, ?_⟩, filled.found, filled.typed, settled,
        ?_, fun _ => filled.owned, fun name higher => same name (Nat.le_of_lt higher)⟩
      · intro r old found notPending d dMember named dShared
        have apart : r ≠ h.size := by
          rintro rfl
          rw [filled.found] at found
          injection found with found
          subst found
          have isC := wired.unique d dMember c member (named.trans filled.typed)
          rw [isC, shared] at dShared
          cases dShared
        exact goodLater.single r old found (fun isPending => isPending.elim notPending apart) d
          dMember named dShared
      · intro name r registered
        rcases goodLater.registered name r registered with ⟨old, found, named, notPending⟩
        exact ⟨old, found, named, fun isPending => notPending (Or.inl isPending)⟩
      · intro isShared
        rw [shared] at isShared
        cases isShared
  | true =>
      simp only [if_true]
      have unregistered : later.instances c.className = none :=
        (same _ (Nat.le_refl _)).trans (fresh shared)
      have keptRegister := kept_register unregistered h.size
      refine ⟨keptAll.trans keptRegister, ⟨goodLater.bounded, ?_, ?_, ?_⟩, filled.found,
        filled.typed, settled, fun _ => Function.update_self .., ?_, ?_⟩
      · intro r old found notPending
        exact keptRegister.complete (complete r old found notPending)
      · intro r old found notPending d dMember named dShared
        by_cases isC : old.className = c.className
        · have isNew := onlyOne shared r old found notPending isC
          rw [isC, isNew]
          exact Function.update_self ..
        · have before : later.objects r = some old := found
          have apart : r ≠ h.size := by
            rintro rfl
            rw [filled.found] at before
            injection before with same
            exact isC (same ▸ filled.typed)
          exact (Function.update_of_ne isC ..).trans
            (goodLater.single r old found (fun isPending => isPending.elim notPending apart) d
              dMember named dShared)
      · intro name r registered
        by_cases isC : name = c.className
        · subst isC
          have isNew : h.size = r := by
            have updated : some h.size = some r :=
              (Function.update_self c.className _ later.instances).symm.trans registered
            exact Option.some.inj updated
          exact ⟨o, isNew ▸ filled.found, filled.typed, isNew ▸ settled⟩
        · have before : later.instances name = some r :=
            (Function.update_of_ne isC ..).symm.trans registered
          rcases goodLater.registered name r before with ⟨old, found, named, notPending⟩
          exact ⟨old, found, named, fun isPending => notPending (Or.inl isPending)⟩
      · intro notShared
        rw [shared] at notShared
        cases notShared
      · intro name higher
        have apart : name ≠ c.className := by
          rintro rfl
          exact absurd higher (Nat.lt_irrefl _)
        exact (Function.update_of_ne apart ..).trans (same name (Nat.le_of_lt higher))

/-- Every call for a component returns when the fuel exceeds the component's rank. -/
theorem provide_provides (wired : Wired comps)
    (ranked : ∀ c ∈ comps, ∀ field ∈ c.injectFields, rank field.fieldType < rank c.className)
    (fuel : Nat) : ∀ c ∈ comps, rank c.className < fuel →
      Provides comps owner rank (provide comps owner fuel) c := by
  induction fuel with
  | zero => exact fun c _ below => absurd below (Nat.not_lt_zero _)
  | succ fuel ih =>
      intro c member below h pending good above
      rw [provide]
      cases existing : (if c.shared then h.instances c.className else none) with
      | some r =>
          rw [Option.ite_none_right_eq_some] at existing
          rcases existing with ⟨shared, registered⟩
          rcases good.registered _ _ registered with ⟨o, found, named, notPending⟩
          refine ⟨r, h, o, rfl, Kept.refl _ h, good, found, named, notPending,
            fun _ => registered, ?_, fun _ _ => rfl⟩
          intro notShared
          rw [shared] at notShared
          cases notShared
      | none =>
          have fresh : c.shared = true → h.instances c.className = none := by
            intro shared
            rwa [if_pos shared] at existing
          have newObject : (h.alloc c.className owner).objects h.size =
              some ⟨c.className, fun _ => none, owner⟩ := Function.update_self ..
          have start : FilledSoFar comps owner c h.size [] (h.alloc c.className owner)
              ⟨c.className, fun _ => none, owner⟩ :=
            ⟨newObject, rfl, rfl, fun _ absent => (by cases absent), fun _ _ held => (by cases held)⟩
          have pendingAbove : ∀ bound < rank c.className,
              PendingAbove rank (fun r => pending r ∨ r = h.size) (h.alloc c.className owner)
                bound := by
            rintro bound lower r (isPending | rfl)
            · rcases above r isPending with ⟨o, found, higher⟩
              exact ⟨o, (good.kept_alloc c.className owner).unchanged found id,
                Nat.lt_trans lower higher⟩
            · exact ⟨_, newObject, lower⟩
          rcases injectAll_filled wired member (ranked c member)
            (fun d dMember lower => ih d dMember (by omega)) (Or.inr rfl) c.injectFields []
            rfl (good.alloc c.className owner) pendingAbove start with
            ⟨later, o, filled, kept, goodLater, allFilled, same⟩
          refine ⟨h.size, _, o, by rw [filled], ?_⟩
          exact provided_of_filled wired member good above fresh kept goodLater allFilled same

end Calls

variable {fuel : Nat}

theorem injectAll_mono {more : DiComponent → Heap → Option (Ref × Heap)}
    (grows : ∀ d h result, call d h = some result → more d h = some result)
    {fields : List DiInjectField} (filled : injectAll comps call r fields h = some later) :
    injectAll comps more r fields h = some later := by
  induction fields generalizing h with
  | nil => exact filled
  | cons field fields ih =>
      rw [injectAll] at filled ⊢
      cases dep : comps.find? (·.className = field.fieldType) with
      | none => rw [dep] at filled; cases filled
      | some d =>
          simp only [dep] at filled ⊢
          cases called : call d h with
          | none => rw [called] at filled; cases filled
          | some result =>
              rw [called] at filled
              rw [grows d h result called]
              exact ih filled

theorem provide_succ {result : Ref × Heap} (provided : provide comps owner fuel c h = some result) :
    provide comps owner (fuel + 1) c h = some result := by
  induction fuel generalizing c h result with
  | zero => cases provided
  | succ fuel ih =>
      rw [provide] at provided ⊢
      cases existing : (if c.shared then h.instances c.className else none) with
      | some r =>
          rw [existing] at provided
          exact provided
      | none =>
          rw [existing] at provided
          cases filled : injectAll comps (provide comps owner fuel) h.size c.injectFields
              (h.alloc c.className owner) with
          | none => rw [filled] at provided; cases provided
          | some later =>
              rw [filled] at provided
              rw [injectAll_mono (fun d h result called => ih called) filled]
              exact provided

theorem provide_mono {more : Nat} {result : Ref × Heap} (enough : fuel ≤ more)
    (provided : provide comps owner fuel c h = some result) :
    provide comps owner more c h = some result := by
  induction enough with
  | refl => exact provided
  | step _ ih => exact provide_succ ih

/-- New objects belong to these classes. -/
def NewOnly (allowed : Ident → Prop) (h later : Heap) : Prop :=
  ∀ r o, later.objects r = some o → allowed o.className ∨
    ∃ old, h.objects r = some old ∧ old.className = o.className

namespace NewOnly

variable {allowed : Ident → Prop}

theorem refl (h : Heap) : NewOnly allowed h h :=
  fun _ o found => Or.inr ⟨o, found, rfl⟩

theorem trans {middle : Heap} (first : NewOnly allowed h middle)
    (second : NewOnly allowed middle later) : NewOnly allowed h later := by
  intro r o found
  rcases second r o found with isAllowed | ⟨old, oldFound, named⟩
  · exact Or.inl isAllowed
  · rw [← named]
    exact first r old oldFound

theorem alloc {className : Ident} (isAllowed : allowed className) (h : Heap)
    (owner : Option Nat) : NewOnly allowed h (h.alloc className owner) := by
  intro r o found
  by_cases isNew : r = h.size
  · have created : some (⟨className, fun _ => none, owner⟩ : Object) = some o := by
      rw [← found, isNew]
      exact (Function.update_self h.size _ h.objects).symm
    injection created with created
    subst created
    exact Or.inl isAllowed
  · exact Or.inr ⟨o, (Function.update_of_ne isNew ..).symm.trans found, rfl⟩

theorem store (h : Heap) (r : Ref) (field : Ident) (value : Ref) :
    NewOnly allowed h (h.store r field value) := by
  intro r' o found
  apply Or.inr
  cases here : h.objects r with
  | none => exact ⟨o, by simpa only [Heap.store, here] using found, rfl⟩
  | some old =>
      rw [store_eq here] at found
      by_cases same : r' = r
      · subst same
        simp only [Function.update_self, Option.some.injEq] at found
        exact ⟨old, here, found ▸ rfl⟩
      · exact ⟨o, (Function.update_of_ne same ..).symm.trans found, rfl⟩

end NewOnly

theorem injectAll_newOnly {allowed : Ident → Prop}
    (each : ∀ d ∈ comps, allowed d.className → ∀ h value later, call d h = some (value, later) → NewOnly allowed h later)
    {fields : List DiInjectField} (types : ∀ field ∈ fields, allowed field.fieldType)
    (filled : injectAll comps call r fields h = some later) : NewOnly allowed h later := by
  induction fields generalizing h with
  | nil =>
      injection filled with filled
      subst filled
      exact NewOnly.refl h
  | cons field fields ih =>
      rw [injectAll] at filled
      cases dep : comps.find? (·.className = field.fieldType) with
      | none => rw [dep] at filled; cases filled
      | some d =>
          have named : d.className = field.fieldType := by simpa using List.find?_some dep
          simp only [dep] at filled
          cases called : call d h with
          | none => rw [called] at filled; cases filled
          | some result =>
              rcases result with ⟨value, middle⟩
              rw [called] at filled
              have first := each d (List.mem_of_find?_eq_some dep)
                (named ▸ types field List.mem_cons_self) h value middle called
              have rest := ih (fun later member => types later (List.mem_cons_of_mem _ member)) filled
              exact (first.trans (NewOnly.store middle r field.fieldName value)).trans rest

theorem provide_newOnly {allowed : Ident → Prop}
    (closed : ∀ c ∈ comps, allowed c.className → ∀ field ∈ c.injectFields, allowed field.fieldType)
    (member : c ∈ comps) (isAllowed : allowed c.className)
    (provided : provide comps owner fuel c h = some (r, later)) : NewOnly allowed h later := by
  induction fuel generalizing c h r later with
  | zero => cases provided
  | succ fuel ih =>
      rw [provide] at provided
      split at provided
      · injection provided with same
        injection same with _ same
        subst same
        exact NewOnly.refl h
      · cases filled : injectAll comps (provide comps owner fuel) h.size c.injectFields
            (h.alloc c.className owner) with
        | none => rw [filled] at provided; cases provided
        | some middle =>
            rw [filled] at provided
            injection provided with same
            injection same with _ same
            have all := (NewOnly.alloc isAllowed h owner).trans
              (injectAll_newOnly (fun d dMember dAllowed h value later called =>
                ih dMember dAllowed called) (closed c member isAllowed) filled)
            subst same
            split <;> exact all

end Tinox.Codegen.Injection
