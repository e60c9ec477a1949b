import Mathlib.Algebra.Order.BigOperators.Group.List
import Mathlib.Algebra.Order.Group.Nat
import Tinox.Codegen.Injection

/-!
# Requests to injected controllers

The shims of the routes: each request gets its controller, the request-scoped
fields of a shared controller are created anew, and then the handler runs.
Several requests interleave.
-/

namespace Tinox.Codegen.Injection

open Tinox.Syntax

/-- A program: its classes, and the controllers of its instance routes. -/
structure Program where
  classes : List ClassDecl
  controllers : List Ident

/-- Its components. -/
def Program.comps (program : Program) : List DiComponent :=
  diComponents program.classes

section Shims

variable (comps : List DiComponent) (owner : Option Nat) (fuel : Nat)

/-- `tinox_di_startup`, which calls the getters of the components with an eager
scope. -/
def diStartup : List DiComponent → Heap → Option Heap
  | [], h => some h
  | c :: rest, h =>
      if c.scope = .startup then
        match provide comps none fuel c h with
        | none => none
        | some (_, h) => diStartup rest h
      else diStartup rest h

/-- Get or create the controller (`emit_route_shim_body`). -/
def getController (className : Ident) (h : Heap) : Option (Ref × Heap) :=
  match comps.find? (·.className = className) with
  | some c => provide comps owner fuel c h
  | none => some (h.size, h.alloc className owner)

/-- Create the request-scoped ones of these fields anew. -/
def refreshFields (r : Ref) : List DiInjectField → Heap → Option Heap
  | [], h => some h
  | field :: fields, h =>
      match comps.find? fun d => d.className = field.fieldType ∧ d.shared = false with
      | none => refreshFields r fields h
      | some dep =>
          match provide comps owner fuel dep h with
          | none => none
          | some (value, h) => refreshFields r fields (h.store r field.fieldName value)

/-- A shared controller gets its own request-scoped fields for each request. -/
def refresh (className : Ident) (r : Ref) (h : Heap) : Option Heap :=
  match comps.find? (·.className = className) with
  | some c => if c.shared then refreshFields comps owner fuel r c.injectFields h else some h
  | none => some h

end Shims

/-- How far a request is; `held` and `ready` know the controller. -/
inductive Phase where
  | arrived
  | held (controller : Ref)
  | ready (controller : Ref)
  | done

/-- A request to a controller. -/
structure Request where
  controller : Ident
  phase : Phase

/-- The objects and all requests so far. -/
structure State where
  heap : Heap
  requests : List Request

/-- One atomic step of a shim; the request's number owns what it creates. -/
inductive Step (program : Program) : State → State → Prop where
  | arrive {s className} : className ∈ program.controllers →
      Step program s ⟨s.heap, s.requests ++ [⟨className, .arrived⟩]⟩
  | getController {s i className fuel r heap} : s.requests[i]? = some (Request.mk className .arrived) →
      getController program.comps (some i) fuel className s.heap = some (r, heap) →
      Step program s ⟨heap, s.requests.set i ⟨className, .held r⟩⟩
  | refresh {s i className fuel r heap} : s.requests[i]? = some (Request.mk className (.held r)) →
      refresh program.comps (some i) fuel className r s.heap = some heap →
      Step program s ⟨heap, s.requests.set i ⟨className, .ready r⟩⟩
  | handle {s i className r} : s.requests[i]? = some (Request.mk className (.ready r)) →
      Step program s ⟨s.heap, s.requests.set i ⟨className, .done⟩⟩

/-- The states of the runs of a program. -/
inductive Reachable (program : Program) : State → Prop where
  | start {fuel heap} : diStartup program.comps fuel program.comps Heap.empty = some heap →
      Reachable program ⟨heap, []⟩
  | step {s s'} : Reachable program s → Step program s s' → Reachable program s'

/-- The `@Inject` fields of a class, its own and inherited ones. -/
inductive HasInject (classes : List ClassDecl) : Ident → FieldDef → Prop where
  | own {c field} : c ∈ classes → field ∈ c.fields → isInject field = true →
      HasInject classes c.name field
  | inherited {c parent field} : c ∈ classes → c.extends_ = some parent →
      HasInject classes parent field → HasInject classes c.name field

/-- Paths of injected fields between objects. -/
inductive Leads (h : Heap) (start : Ref) : List Ident → Ref → Prop where
  | here : Leads h start [] start
  | field {path r o name value} : Leads h start path r → h.objects r = some o →
      o.fields name = some value → Leads h start (path ++ [name]) value

/-- The scopes of components are respected in a state. -/
structure Respected (program : Program) (s : State) : Prop where
  returns : ∀ c ∈ program.comps, ∀ owner,
    ∃ fuel r later, provide program.comps owner fuel c s.heap = some (r, later)
  single : ∀ c ∈ program.comps, c.shared = true → ∀ r r' o o', s.heap.objects r = some o →
    s.heap.objects r' = some o' → o.className = c.className → o'.className = c.className → r = r'
  holds : ∀ c ∈ program.comps, c.shared = true → ∀ r o field, s.heap.objects r = some o →
    HasInject program.classes o.className field → field.fieldType = .named c.className →
    ∃ value, o.fields field.name = some value ∧ s.heap.instances c.className = some value
  same : ∀ (i : Nat) className r, s.requests[i]? = some (Request.mk className (.ready r)) →
    ∀ c ∈ program.comps, c.shared = false → ∀ path a o field path' a' o' field',
    Leads s.heap r path a → s.heap.objects a = some o →
    HasInject program.classes o.className field → field.fieldType = .named c.className →
    Leads s.heap r path' a' → s.heap.objects a' = some o' →
    HasInject program.classes o'.className field' → field'.fieldType = .named c.className →
    ∃ value, o.fields field.name = some value ∧ o'.fields field'.name = some value
  apart : ∀ (i : Nat) className r, s.requests[i]? = some (Request.mk className (.ready r)) →
    ∀ path a o, Leads s.heap r path a → s.heap.objects a = some o →
    ∀ c ∈ program.comps, c.className = o.className → c.shared = false →
    ∀ j, o.owner = some j → j = i

/-- Startup returns, and every state that is reached respects the scopes. -/
def Respects (program : Program) : Prop :=
  (∃ fuel heap, diStartup program.comps fuel program.comps Heap.empty = some heap) ∧
  ∀ s, Reachable program s → Respected program s

/-- The functions that the generated code calls are defined, each once. -/
structure Accepted (program : Program) : Prop where
  unique : (program.classes.map (·.name)).Nodup
  controllers : ∀ className ∈ program.controllers, ∃ c ∈ program.classes, c.name = className
  linked : ∀ c ∈ program.comps, ∀ field ∈ c.injectFields,
    ∃ d ∈ program.comps, d.className = field.fieldType

/-- A class injects a type. -/
def Injects (comps : List DiComponent) (className typeName : Ident) : Prop :=
  ∃ c ∈ comps, c.className = className ∧ ∃ field ∈ c.injectFields, field.fieldType = typeName

/-- Controllers, components that are created at startup, and what these inject. -/
inductive Used (program : Program) : Ident → Prop where
  | controller {className} : className ∈ program.controllers → Used program className
  | startup {c} : c ∈ program.comps → c.scope = .startup → Used program c.className
  | injected {className typeName} : Used program className →
      Injects program.comps className typeName → Used program typeName

/-- Paths of injected fields between classes. -/
inductive Path (comps : List DiComponent) (start : Ident) : List Ident → Ident → Prop where
  | here : Path comps start [] start
  | field {path c field} : Path comps start path c.className → c ∈ comps →
      field ∈ c.injectFields → Path comps start (path ++ [field.fieldName]) field.fieldType

/-- No component needs itself, all `@Inject` fields of used classes are injected,
no shared component that a controller leads to injects a request-scoped one, and
a request-scoped one is injected at one place behind a controller. -/
structure Scoped (program : Program) : Prop where
  acyclic : ∃ rank : Ident → Nat, ∀ c ∈ program.comps, ∀ field ∈ c.injectFields,
    rank field.fieldType < rank c.className
  fieldNames : ∀ c ∈ program.comps, (c.injectFields.map (·.fieldName)).Nodup
  injected : ∀ className, Used program className → ∀ field,
    HasInject program.classes className field → ∃ c ∈ program.comps, c.className = className ∧
    ∃ injected ∈ c.injectFields, injected.fieldName = field.name ∧
      field.fieldType = .named injected.fieldType
  shared : ∀ start ∈ program.controllers, ∀ path, ∀ c ∈ program.comps,
    Path program.comps start path c.className → c.shared = true → ∀ field ∈ c.injectFields,
    ∀ d ∈ program.comps, d.className = field.fieldType → d.shared = true
  onePath : ∀ start ∈ program.controllers, ∀ c ∈ program.comps, c.shared = false →
    ∀ path path', Path program.comps start path c.className →
    Path program.comps start path' c.className → path = path'

variable {c : DiComponent} {program : Program} {h : Heap}

theorem mem_diComponents {classes : List ClassDecl} :
    c ∈ diComponents classes ↔ ∃ decl ∈ classes, ∃ scope, diScope decl.annotations = some scope ∧
      c = ⟨decl.name, scope, collectInjectFields decl.fields⟩ := by
  simp only [diComponents, List.mem_filterMap, Option.map_eq_some_iff, @eq_comm _ c]

theorem Scoped.wired (accepted : Accepted program) (inScope : Scoped program) :
    Wired program.comps where
  unique := by
    intro c member d dMember named
    rcases mem_diComponents.mp member with ⟨decl, declMember, scope, isScope, rfl⟩
    rcases mem_diComponents.mp dMember with ⟨decl', declMember', scope', isScope', rfl⟩
    have same := List.inj_on_of_nodup_map accepted.unique declMember declMember' named
    subst same
    rw [isScope] at isScope'
    injection isScope' with isScope'
    rw [isScope']
  linked := accepted.linked
  fieldNames := inScope.fieldNames
  acyclic := inScope.acyclic

theorem pendingAbove_none {rank : Ident → Nat} {bound : Nat} :
    PendingAbove rank (fun _ => False) h bound :=
  fun _ never => never.elim

variable {owner : Option Nat} {fuel : Nat} {later : Heap} {r : Ref}

section Calls

variable {comps : List DiComponent} {rank : Ident → Nat}

/-- Whatever a call gives, it is what a call with enough fuel gives. -/
theorem provided_of_provide (wired : Wired comps)
    (ranked : ∀ c ∈ comps, ∀ field ∈ c.injectFields, rank field.fieldType < rank c.className)
    (member : c ∈ comps) (good : Good comps (fun _ => False) h)
    (provided : provide comps owner fuel c h = some (r, later)) :
    ∃ o, Provided comps owner rank (fun _ => False) c h r later o := by
  have lower : rank c.className < max fuel (rank c.className + 1) :=
    Nat.lt_of_lt_of_le (Nat.lt_succ_self _) (Nat.le_max_right _ _)
  have provides : Provides comps owner rank (provide comps owner _) c :=
    provide_provides wired ranked _ c member lower
  rcases provides h _ good pendingAbove_none with ⟨r', later', o, called, isProvided⟩
  rw [provide_mono (Nat.le_max_left _ _) provided] at called
  injection called with same
  injection same with sameRef sameHeap
  subst sameRef sameHeap
  exact ⟨o, isProvided⟩

end Calls

/-- All objects are complete and belong to used classes. -/
structure Sound (program : Program) (h : Heap) : Prop where
  good : Good program.comps (fun _ => False) h
  used : ∀ r o, h.objects r = some o → Used program o.className

/-- A controller of this class, made for this request unless it is shared. -/
def IsController (program : Program) (h : Heap) (i : Nat) (className : Ident) (r : Ref) : Prop :=
  ∃ o, h.objects r = some o ∧ o.className = className ∧
    ∀ c ∈ program.comps, c.className = className → c.shared = false → o.owner = some i

/-- The controller that a request holds. -/
def Phase.controller? : Phase → Option Ref
  | .held r | .ready r => some r
  | .arrived | .done => none

/-- What holds in every state of a run. -/
structure Inv (program : Program) (s : State) : Prop where
  sound : Sound program s.heap
  routes : ∀ request ∈ s.requests, request.controller ∈ program.controllers
  held : ∀ (i : Nat) request, s.requests[i]? = some request →
    ∀ r, request.phase.controller? = some r → IsController program s.heap i request.controller r

variable {i : Nat} {className : Ident} {s : State}

theorem IsController.kept (isController : IsController program h i className r)
    (kept : Kept (fun _ => False) h later) : IsController program later i className r := by
  rcases isController with ⟨o, found, named, owned⟩
  exact ⟨o, kept.unchanged found id, named, owned⟩

theorem Sound.provide {rank : Ident → Nat} (wired : Wired program.comps)
    (ranked : ∀ c ∈ program.comps, ∀ field ∈ c.injectFields, rank field.fieldType < rank c.className)
    (member : c ∈ program.comps) (used : Used program c.className) (sound : Sound program h)
    (provided : provide program.comps owner fuel c h = some (r, later)) : Sound program later ∧
      ∃ o, Provided program.comps owner rank (fun _ => False) c h r later o := by
  rcases provided_of_provide wired ranked member sound.good provided with ⟨o, isProvided⟩
  refine ⟨⟨isProvided.good, fun r' o' found => ?_⟩, o, isProvided⟩
  have closed : ∀ d ∈ program.comps, Used program d.className → ∀ field ∈ d.injectFields,
      Used program field.fieldType :=
    fun d dMember dUsed field fieldMember =>
      Used.injected dUsed ⟨d, dMember, rfl, field, fieldMember, rfl⟩
  rcases provide_newOnly closed member used provided r' o' found with isUsed | ⟨old, oldFound, named⟩
  · exact isUsed
  · exact named ▸ sound.used r' old oldFound

theorem Sound.alloc (plain : ∀ c ∈ program.comps, c.className ≠ className)
    (used : Used program className) (sound : Sound program h) (owner : Option Nat) :
    Sound program (h.alloc className owner) := by
  have good := sound.good.alloc className owner
  have here : (h.alloc className owner).objects h.size = some ⟨className, fun _ => none, owner⟩ :=
    Function.update_self ..
  have isNew : ∀ {o : Object}, (h.alloc className owner).objects h.size = some o →
      o = ⟨className, fun _ => none, owner⟩ := by
    intro o found
    rw [here] at found
    exact (Option.some.inj found).symm
  refine ⟨⟨good.bounded, ?_, ?_, ?_⟩, ?_⟩
  · intro r o found _
    by_cases new : r = h.size
    · subst new
      rw [isNew found]
      exact ⟨fun c member named => absurd named (plain c member), fun _ _ held => (by cases held)⟩
    · exact good.complete r o found fun pending => pending.elim id new
  · intro r o found _ c member named shared
    by_cases new : r = h.size
    · subst new
      rw [isNew found] at named
      exact absurd named (plain c member)
    · exact good.single r o found (fun pending => pending.elim id new) c member named shared
  · intro name r registered
    rcases good.registered name r registered with ⟨o, found, named, -⟩
    exact ⟨o, found, named, id⟩
  · intro r o found
    have newOnly : NewOnly (Used program) h (h.alloc className owner) := NewOnly.alloc used h owner
    rcases newOnly r o found with isUsed | ⟨old, oldFound, named⟩
    · exact isUsed
    · exact named ▸ sound.used r old oldFound

theorem Sound.getController {program : Program} {rank : Ident → Nat} (wired : Wired program.comps)
    (ranked : ∀ c ∈ program.comps, ∀ field ∈ c.injectFields,
      rank field.fieldType < rank c.className)
    {i fuel : Nat} {className : Ident} (route : className ∈ program.controllers) {h later : Heap}
    {r : Ref} (sound : Sound program h)
    (got : getController program.comps (some i) fuel className h = some (r, later)) :
    Sound program later ∧ Kept (fun _ => False) h later ∧
      IsController program later i className r := by
  rw [Injection.getController] at got
  cases dep : program.comps.find? (·.className = className) with
  | some c =>
      rw [dep] at got
      have member := List.mem_of_find?_eq_some dep
      have named : c.className = className := by simpa using List.find?_some dep
      subst named
      rcases sound.provide wired ranked member (Used.controller route) got with
        ⟨soundLater, o, provided⟩
      refine ⟨soundLater, provided.kept, o, provided.found, provided.typed, ?_⟩
      intro d dMember same notShared
      rw [wired.unique d dMember c member same] at notShared
      exact provided.owned notShared
  | none =>
      rw [dep] at got
      injection got with same
      injection same with sameRef sameHeap
      subst sameRef sameHeap
      have plain : ∀ c ∈ program.comps, c.className ≠ className := by
        intro c member named
        exact List.find?_eq_none.mp dep c member (decide_eq_true named)
      refine ⟨sound.alloc plain (Used.controller route) (some i), sound.good.kept_alloc _ _,
        _, Function.update_self .., rfl, ?_⟩
      intro c member named
      exact absurd named (plain c member)

theorem refreshFields_eq {comps : List DiComponent} {fields : List DiInjectField}
    (allShared : ∀ field ∈ fields, ∀ d ∈ comps, d.className = field.fieldType → d.shared = true) :
    refreshFields comps owner fuel r fields h = some h := by
  induction fields with
  | nil => rfl
  | cons field fields ih =>
      have noneFound :
          comps.find? (fun d => d.className = field.fieldType ∧ d.shared = false) = none := by
        apply List.find?_eq_none.mpr
        intro d dMember isDep
        have both := of_decide_eq_true isDep
        have isShared := allShared field List.mem_cons_self d dMember both.1
        rw [isShared] at both
        cases both.2
      rw [refreshFields, noneFound]
      exact ih fun later member => allShared later (List.mem_cons_of_mem _ member)

theorem refresh_eq (inScope : Scoped program) (route : className ∈ program.controllers)
    (refreshed : refresh program.comps (some i) fuel className r h = some later) : later = h := by
  rw [refresh] at refreshed
  cases dep : program.comps.find? (·.className = className) with
  | none =>
      rw [dep] at refreshed
      exact (Option.some.inj refreshed).symm
  | some c =>
      rw [dep] at refreshed
      have member := List.mem_of_find?_eq_some dep
      have named : c.className = className := by simpa using List.find?_some dep
      cases shared : c.shared with
      | false =>
          simp only [shared, Bool.false_eq_true, if_false] at refreshed
          exact (Option.some.inj refreshed).symm
      | true =>
          simp only [shared, if_true] at refreshed
          have allShared := inScope.shared className route [] c member (named ▸ Path.here) shared
          rw [refreshFields_eq allShared] at refreshed
          exact (Option.some.inj refreshed).symm

theorem Inv.set (inv : Inv program s) {request : Request} (found : s.requests[i]? = some request)
    {heap : Heap} (sound : Sound program heap) (kept : Kept (fun _ => False) s.heap heap)
    {phase : Phase}
    (held : ∀ r, phase.controller? = some r → IsController program heap i request.controller r) :
    Inv program ⟨heap, s.requests.set i ⟨request.controller, phase⟩⟩ where
  sound := sound
  routes := by
    intro other member
    rcases List.mem_or_eq_of_mem_set member with member | rfl
    · exact inv.routes other member
    · exact inv.routes request (List.mem_of_getElem? found)
  held := by
    intro j other otherFound r holds
    by_cases same : i = j
    · subst same
      rw [List.getElem?_set_self (List.getElem?_eq_some_iff.mp found).1] at otherFound
      injection otherFound with otherFound
      subst otherFound
      exact held r holds
    · rw [List.getElem?_set_ne same] at otherFound
      exact (inv.held j other otherFound r holds).kept kept

theorem Inv.arrive {program : Program} {s : State} (inv : Inv program s) {className : Ident}
    (route : className ∈ program.controllers) :
    Inv program ⟨s.heap, s.requests ++ [⟨className, .arrived⟩]⟩ where
  sound := inv.sound
  routes := by
    intro request member
    rcases List.mem_append.mp member with member | member
    · exact inv.routes request member
    · rcases List.mem_singleton.mp member with rfl
      exact route
  held := by
    intro i request found r holds
    rcases List.mem_append.mp (List.mem_of_getElem? found) with _ | member
    · have below : i < s.requests.length := by
        by_contra outside
        rw [List.getElem?_append_right (Nat.le_of_not_lt outside)] at found
        rcases List.mem_singleton.mp (List.mem_of_getElem? found) with rfl
        cases holds
      rw [List.getElem?_append_left below] at found
      exact inv.held i request found r holds
    · rcases List.mem_singleton.mp member with rfl
      cases holds

theorem step_inv (accepted : Accepted program) (inScope : Scoped program) {s' : State}
    (inv : Inv program s) (step : Step program s s') : Inv program s' := by
  have wired := inScope.wired accepted
  rcases inScope.acyclic with ⟨rank, ranked⟩
  cases step with
  | arrive route => exact inv.arrive route
  | getController found got =>
      rcases inv.sound.getController wired ranked
        (inv.routes _ (List.mem_of_getElem? found)) got with ⟨sound, kept, isController⟩
      apply inv.set found sound kept
      intro r holds
      cases holds
      exact isController
  | refresh found refreshed =>
      have same := refresh_eq inScope (inv.routes _ (List.mem_of_getElem? found)) refreshed
      subst same
      apply inv.set found inv.sound (Kept.refl _ _)
      intro r holds
      cases holds
      exact inv.held _ _ found _ rfl
  | handle found =>
      apply inv.set found inv.sound (Kept.refl _ _)
      intro r holds
      cases holds

theorem sound_empty (program : Program) : Sound program Heap.empty :=
  ⟨⟨fun _ _ => rfl, fun _ _ found => (by cases found), fun _ _ found => (by cases found),
    fun _ _ registered => (by cases registered)⟩, fun _ _ found => (by cases found)⟩

theorem Sound.diStartup {program : Program} {rank : Ident → Nat} (wired : Wired program.comps)
    (ranked : ∀ c ∈ program.comps, ∀ field ∈ c.injectFields,
      rank field.fieldType < rank c.className)
    {fuel : Nat} {comps : List DiComponent} (among : ∀ c ∈ comps, c ∈ program.comps)
    {h later : Heap} (sound : Sound program h)
    (started : diStartup program.comps fuel comps h = some later) : Sound program later := by
  induction comps generalizing h with
  | nil =>
      injection started with started
      exact started ▸ sound
  | cons c comps ih =>
      have rest : ∀ d ∈ comps, d ∈ program.comps :=
        fun d member => among d (List.mem_cons_of_mem _ member)
      rw [Injection.diStartup] at started
      by_cases eager : c.scope = .startup
      · rw [if_pos eager] at started
        cases called : Injection.provide program.comps none fuel c h with
        | none => rw [called] at started; cases started
        | some result =>
            rw [called] at started
            have member := among c List.mem_cons_self
            exact ih rest (sound.provide wired ranked member (Used.startup member eager) called).1
              started
      · rw [if_neg eager] at started
        exact ih rest sound started

theorem diStartup_returns {program : Program} {rank : Ident → Nat} (wired : Wired program.comps)
    (ranked : ∀ c ∈ program.comps, ∀ field ∈ c.injectFields,
      rank field.fieldType < rank c.className)
    {fuel : Nat} {comps : List DiComponent} (among : ∀ c ∈ comps, c ∈ program.comps)
    (enough : ∀ c ∈ comps, rank c.className < fuel) {h : Heap} (sound : Sound program h) :
    ∃ later, diStartup program.comps fuel comps h = some later := by
  induction comps generalizing h with
  | nil => exact ⟨h, rfl⟩
  | cons c comps ih =>
      have rest := @ih (fun d member => among d (List.mem_cons_of_mem _ member))
        fun d member => enough d (List.mem_cons_of_mem _ member)
      rw [Injection.diStartup]
      by_cases eager : c.scope = .startup
      · have member := among c List.mem_cons_self
        have provides : Provides program.comps none rank (provide program.comps none fuel) c :=
          provide_provides wired ranked fuel c member (enough c List.mem_cons_self)
        rcases provides h _ sound.good pendingAbove_none with ⟨r, later, o, called, -⟩
        rw [if_pos eager, called]
        exact rest (sound.provide wired ranked member (Used.startup member eager) called).1
      · rw [if_neg eager]
        exact rest sound

theorem reachable_inv (accepted : Accepted program) (inScope : Scoped program)
    (reachable : Reachable program s) : Inv program s := by
  have wired := inScope.wired accepted
  rcases inScope.acyclic with ⟨rank, ranked⟩
  induction reachable with
  | start started =>
      refine ⟨Sound.diStartup wired ranked (fun _ member => member) (sound_empty program) started,
        fun _ member => (by cases member), fun _ _ found => (by cases found)⟩
  | step _ step ih => exact step_inv accepted inScope ih step

variable {path : List Ident}

section Reached

variable {program : Program} {h : Heap}

variable {start a : Ref}

theorem Sound.held_field (sound : Sound program h) {o : Object} (found : h.objects r = some o)
    {name : Ident} {value : Ref} (held : o.fields name = some value) :
    ∃ c ∈ program.comps, c.className = o.className ∧ ∃ field ∈ c.injectFields,
      field.fieldName = name ∧ ∃ target, Supplies program.comps h o.owner field value target := by
  have complete := sound.good.complete r o found id
  rcases complete.only name value held with ⟨c, member, named, field, fieldMember, rfl⟩
  rcases complete.filled c member named field fieldMember with ⟨value', target, held', supplied⟩
  rw [held] at held'
  injection held' with same
  subst same
  exact ⟨c, member, named, field, fieldMember, rfl, target, supplied⟩

theorem leads_path (sound : Sound program h)
    (typed : ∃ o, h.objects start = some o ∧ o.className = className) (leads : Leads h start path a) :
    ∃ o, h.objects a = some o ∧ Path program.comps className path o.className := by
  induction leads with
  | here =>
      rcases typed with ⟨o, found, rfl⟩
      exact ⟨o, found, Path.here⟩
  | field _ found held ih =>
      rcases ih with ⟨o, found', isPath⟩
      rw [found] at found'
      injection found' with same
      subst same
      rcases sound.held_field found held with
        ⟨c, member, named, field, fieldMember, rfl, target, supplied⟩
      refine ⟨target, supplied.found, ?_⟩
      rw [supplied.typed]
      exact Path.field (named ▸ isPath) member fieldMember

theorem leads_cases (leads : Leads h start path a) :
    (path = [] ∧ a = start) ∨ ∃ before r o name, path = before ++ [name] ∧
      Leads h start before r ∧ h.objects r = some o ∧ o.fields name = some a := by
  cases leads with
  | here => exact Or.inl ⟨rfl, rfl⟩
  | field before found held => exact Or.inr ⟨_, _, _, _, rfl, before, found, held⟩

theorem leads_functional {b : Ref} (toA : Leads h start path a) (toB : Leads h start path b) :
    a = b := by
  induction toA generalizing b with
  | here =>
      rcases leads_cases toB with ⟨-, same⟩ | ⟨before, r, o, name, split, -, -, -⟩
      · exact same.symm
      · exact absurd split.symm (List.concat_ne_nil name before)
  | field _ found held ih =>
      rcases leads_cases toB with ⟨split, -⟩ | ⟨before, r, o, name, split, toR, found', held'⟩
      · exact absurd split (List.concat_ne_nil _ _)
      · rcases List.append_inj' split rfl with ⟨rfl, sameName⟩
        injection sameName with sameName
        subst sameName
        rw [ih toR, found'] at found
        injection found with same
        subst same
        rw [held] at held'
        exact Option.some.inj held'

theorem leads_owned (inScope : Scoped program) (sound : Sound program h)
    (route : className ∈ program.controllers)
    (isController : IsController program h i className start) (leads : Leads h start path a) :
    ∀ o, h.objects a = some o → ∀ c ∈ program.comps, c.className = o.className →
      c.shared = false → o.owner = some i := by
  rcases isController with ⟨controller, controllerFound, controllerNamed, owned⟩
  induction leads with
  | here =>
      intro o found c member named
      rw [controllerFound] at found
      injection found with same
      subst same
      exact owned c member (named.trans controllerNamed)
  | field before found held ih =>
      intro target targetFound d dMember dNamed notShared
      rcases sound.held_field found held with
        ⟨c, member, named, field, fieldMember, -, target', supplied⟩
      have sameTarget : target' = target := by
        have both := supplied.found
        rw [targetFound] at both
        exact (Option.some.inj both).symm
      subst sameTarget
      have typed : d.className = field.fieldType := dNamed.trans supplied.typed
      rcases leads_path sound ⟨controller, controllerFound, controllerNamed⟩ before with
        ⟨container, containerFound, isPath⟩
      rw [found] at containerFound
      injection containerFound with same
      subst same
      cases shared : c.shared with
      | true =>
          have isShared := inScope.shared className route _ c member (named ▸ isPath) shared field
            fieldMember d dMember typed
          rw [isShared] at notShared
          cases notShared
      | false =>
          rw [supplied.owned d dMember typed notShared]
          exact ih _ found c member named shared

theorem Sound.injected (inScope : Scoped program) (sound : Sound program h) {o : Object}
    (found : h.objects r = some o) {field : FieldDef}
    (hasInject : HasInject program.classes o.className field) {typeName : Ident}
    (typed : field.fieldType = .named typeName) :
    ∃ c ∈ program.comps, c.className = o.className ∧ ∃ injected ∈ c.injectFields,
      injected.fieldName = field.name ∧ injected.fieldType = typeName ∧
      ∃ value target, o.fields field.name = some value ∧
        Supplies program.comps h o.owner injected value target := by
  rcases inScope.injected _ (sound.used r o found) field hasInject with
    ⟨c, member, named, injected, injectedMember, sameName, sameType⟩
  rw [typed] at sameType
  injection sameType with sameType
  rcases (sound.good.complete r o found id).filled c member named injected injectedMember with
    ⟨value, target, held, supplied⟩
  exact ⟨c, member, named, injected, injectedMember, sameName, sameType.symm, value, target,
    sameName ▸ held, supplied⟩

end Reached

theorem Inv.respected (accepted : Accepted program) (inScope : Scoped program) (inv : Inv program s) :
    Respected program s := by
  have wired := inScope.wired accepted
  have sound := inv.sound
  have controller : ∀ (i : Nat) className r,
      s.requests[i]? = some (Request.mk className (.ready r)) →
      className ∈ program.controllers ∧ IsController program s.heap i className r :=
    fun i className r found => ⟨inv.routes _ (List.mem_of_getElem? found), inv.held i _ found r rfl⟩
  constructor
  · intro c member owner
    rcases inScope.acyclic with ⟨rank, ranked⟩
    have provides : Provides program.comps owner rank
        (provide program.comps owner (rank c.className + 1)) c :=
      provide_provides wired ranked _ c member (Nat.lt_succ_self _)
    rcases provides s.heap _ sound.good pendingAbove_none with ⟨r, later, o, called, -⟩
    exact ⟨_, r, later, called⟩
  · intro c member shared r r' o o' found found' named named'
    have first := sound.good.single r o found id c member named.symm shared
    have second := sound.good.single r' o' found' id c member named'.symm shared
    rw [named] at first
    rw [named', first] at second
    exact Option.some.inj second
  · intro c member shared r o field found hasInject typed
    rcases sound.injected inScope found hasInject typed with
      ⟨-, -, -, injected, -, -, sameType, value, target, held, supplied⟩
    exact ⟨value, held, sameType ▸ supplied.instance_ c member sameType.symm shared⟩
  · intro i className r found c member notShared path a o field path' a' o' field' leads aFound
      hasInject typed leads' aFound' hasInject' typed'
    rcases controller i className r found with ⟨route, start, startFound, startNamed, -⟩
    rcases sound.injected inScope aFound hasInject typed with
      ⟨d, dMember, dNamed, injected, dInjects, name, sameType, value, -, held, -⟩
    rcases sound.injected inScope aFound' hasInject' typed' with
      ⟨d', dMember', dNamed', injected', dInjects', name', sameType', -, -, -, -⟩
    rcases leads_path sound ⟨start, startFound, startNamed⟩ leads with ⟨o₁, found₁, isPath⟩
    rcases leads_path sound ⟨start, startFound, startNamed⟩ leads' with ⟨o₂, found₂, isPath'⟩
    rw [aFound] at found₁
    rw [aFound'] at found₂
    injection found₁ with same₁
    injection found₂ with same₂
    subst same₁ same₂
    have toField := Path.field (dNamed ▸ isPath) dMember dInjects
    have toField' := Path.field (dNamed' ▸ isPath') dMember' dInjects'
    rw [sameType] at toField
    rw [sameType'] at toField'
    have onePath := inScope.onePath className route c member notShared _ _ toField toField'
    rcases List.append_inj' onePath rfl with ⟨rfl, sameName⟩
    have sameObject := leads_functional leads leads'
    subst sameObject
    rw [aFound] at aFound'
    injection aFound' with same
    subst same
    injection sameName with sameName
    refine ⟨value, held, ?_⟩
    rw [← name', ← sameName, name]
    exact held
  · intro i className r found path a o leads aFound c member named notShared j isOwner
    rcases controller i className r found with ⟨route, isController⟩
    have owned := leads_owned inScope sound route isController leads o aFound c member named
      notShared
    rw [owned] at isOwner
    exact (Option.some.inj isOwner).symm

/-- The scopes are respected in every run of a program whose graph allows it. -/
theorem scoped_respects {program : Program} (accepted : Accepted program)
    (inScope : Scoped program) : Respects program := by
  have wired := inScope.wired accepted
  constructor
  · rcases inScope.acyclic with ⟨rank, ranked⟩
    have enough : ∀ c ∈ program.comps,
        rank c.className < (program.comps.map fun d => rank d.className).sum + 1 := by
      intro c member
      exact Nat.lt_succ_of_le (List.le_sum_of_mem (List.mem_map_of_mem member))
    rcases diStartup_returns wired ranked (fun _ member => member) enough (sound_empty program) with
      ⟨heap, started⟩
    exact ⟨_, heap, started⟩
  · exact fun s reachable => (reachable_inv accepted inScope reachable).respected accepted inScope

private def annotated (name marker : Ident) (fields : List FieldDef) : ClassDecl :=
  ⟨name, [], none, [], fields, [], none, [⟨marker, []⟩]⟩

private def injectedField (name typeName : Ident) : FieldDef :=
  ⟨name, .named typeName, .priv, true, none, [⟨"Inject", []⟩]⟩

/-- A controller for each request, with a request-scoped and a shared field. -/
private def separate : Program where
  classes :=
    [annotated "Api" "HttpRequestScoped" [injectedField "user" "User", injectedField "store" "Store"],
      annotated "User" "HttpRequestScoped" [], annotated "Store" "ApplicationComponent" []]
  controllers := ["Api"]

/-- One controller for all requests, with a request-scoped field. -/
private def together : Program where
  classes :=
    [annotated "Api" "ApplicationComponent" [injectedField "user" "User"],
      annotated "User" "HttpRequestScoped" []]
  controllers := ["Api"]

private theorem separate_comps : separate.comps =
    [⟨"Api", .httpRequest, [⟨"user", "User"⟩, ⟨"store", "Store"⟩]⟩, ⟨"User", .httpRequest, []⟩,
      ⟨"Store", .application, []⟩] := rfl

private theorem separate_accepted : Accepted separate where
  unique := by decide
  controllers := by decide
  linked := by
    rw [separate_comps]
    decide

private theorem separate_path (isPath : Path separate.comps "Api" path className) :
    (path = [] ∧ className = "Api") ∨ (path = ["user"] ∧ className = "User") ∨
      (path = ["store"] ∧ className = "Store") := by
  rw [separate_comps] at isPath
  induction isPath with
  | here => exact Or.inl ⟨rfl, rfl⟩
  | field _ member fieldMember ih =>
      simp only [List.mem_cons, List.not_mem_nil, or_false] at member
      rcases member with rfl | rfl | rfl
      · simp only [List.mem_cons, List.not_mem_nil, or_false] at fieldMember
        rcases ih with ⟨rfl, -⟩ | ⟨-, impossible⟩ | ⟨-, impossible⟩
        · rcases fieldMember with rfl | rfl
          · exact Or.inr (Or.inl ⟨rfl, rfl⟩)
          · exact Or.inr (Or.inr ⟨rfl, rfl⟩)
        all_goals exact absurd impossible (by decide)
      all_goals cases fieldMember

private theorem separate_injected {field : FieldDef}
    (hasInject : HasInject separate.classes className field) : className = "Api" ∧
      (field = injectedField "user" "User" ∨ field = injectedField "store" "Store") := by
  induction hasInject with
  | own member fieldMember =>
      simp only [separate, List.mem_cons, List.not_mem_nil, or_false] at member
      rcases member with rfl | rfl | rfl
      · simp only [annotated, List.mem_cons, List.not_mem_nil, or_false] at fieldMember
        exact ⟨rfl, fieldMember⟩
      all_goals cases fieldMember
  | inherited member extends_ =>
      simp only [separate, List.mem_cons, List.not_mem_nil, or_false] at member
      rcases member with rfl | rfl | rfl <;> cases extends_

private theorem separate_scoped : Scoped separate where
  acyclic := by
    refine ⟨fun name => if name = "Api" then 1 else 0, ?_⟩
    rw [separate_comps]
    decide
  fieldNames := by
    rw [separate_comps]
    decide
  injected := by
    intro className _ field hasInject
    rcases separate_injected hasInject with ⟨rfl, rfl | rfl⟩
    · exact ⟨_, List.mem_cons_self, rfl, _, List.mem_cons_self, rfl, rfl⟩
    · exact ⟨_, List.mem_cons_self, rfl, _, List.mem_cons_of_mem _ List.mem_cons_self, rfl, rfl⟩
  shared := by
    intro start route path c member _ shared field fieldMember
    rw [separate_comps] at member
    simp only [List.mem_cons, List.not_mem_nil, or_false] at member
    rcases member with rfl | rfl | rfl
    · cases shared
    · cases shared
    · cases fieldMember
  onePath := by
    intro start route c _ _ path path' isPath isPath'
    rcases List.mem_singleton.mp route with rfl
    rcases separate_path isPath with ⟨rfl, first⟩ | ⟨rfl, first⟩ | ⟨rfl, first⟩ <;>
    rcases separate_path isPath' with ⟨rfl, second⟩ | ⟨rfl, second⟩ | ⟨rfl, second⟩ <;>
    first
    | rfl
    | exact absurd (first.symm.trans second) (by decide)

/-- The scopes are respected with a controller for each request. -/
theorem separate_respects : Respects separate :=
  scoped_respects separate_accepted separate_scoped

/-- A shared controller shows a request the object of another one: the second request
replaces the field before the first handler runs. -/
theorem together_not_respected : ¬ ∀ program, Accepted program → Respects program := by
  intro always
  have accepted : Accepted together := by
    have comps : together.comps =
        [⟨"Api", .application, [⟨"user", "User"⟩]⟩, ⟨"User", .httpRequest, []⟩] := rfl
    constructor
    · decide
    · decide
    · rw [comps]
      decide
  have started : Reachable together ⟨Heap.empty, []⟩ := @Reachable.start together 0 _ rfl
  have first := started.step (@Step.arrive together _ "Api" List.mem_cons_self)
  have second := first.step (@Step.arrive together _ "Api" List.mem_cons_self)
  have held := second.step (@Step.getController together _ 0 _ 2 _ _ rfl rfl)
  have ready := held.step (@Step.refresh together _ 0 _ 2 _ _ rfl rfl)
  have secondHeld := ready.step (@Step.getController together _ 1 _ 2 _ _ rfl rfl)
  have secondReady := secondHeld.step (@Step.refresh together _ 1 _ 2 _ _ rfl rfl)
  have apart := ((always together accepted).2 _ secondReady).apart 0 "Api" _ rfl _ _ _
    (@Leads.field _ _ _ _ _ "user" _ Leads.here rfl rfl) rfl
  have user : (⟨"User", .httpRequest, []⟩ : DiComponent) ∈ together.comps :=
    List.mem_cons_of_mem _ List.mem_cons_self
  exact absurd (apart _ user rfl rfl 1 rfl) (by decide)

end Tinox.Codegen.Injection
