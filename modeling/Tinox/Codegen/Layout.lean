import Tinox.Syntax.Ast
import Mathlib.Logic.Relation
import Mathlib.Tactic.ByContra

/-!
# Object layouts

The first pass of the code generator lays every class out as a list of slot
names: an optional vtable pointer, the inherited and own fields, and an
optional synthetic `log` field.  Whether the optional slots are present is
decided from the class's own `implements` clause and annotations only.

A method that a subclass inherits is compiled once, against the layout of the
class that declares it.  This file proves exactly when the slots it uses are
the same in the layout of the subclass.
-/

namespace Tinox.Codegen.Layout

open Tinox.Syntax

section Slots

variable {α : Type*} [BEq α] [LawfulBEq α]

theorem idxOf?_append_of_mem {front : List α} {name : α} (mem : name ∈ front) (back : List α) :
    (front ++ back).idxOf? name = front.idxOf? name := by
  induction front with
  | nil => simp at mem
  | cons first front ih =>
      by_cases equal : first = name
      · simp [List.idxOf?_cons, equal]
      · have memRest : name ∈ front := by
          rcases List.mem_cons.mp mem with rfl | memRest
          · exact absurd rfl equal
          · exact memRest
        simp [List.idxOf?_cons, equal, ih memRest]

theorem idxOf?_append_of_notMem {front : List α} {name : α} (notMem : name ∉ front)
    (back : List α) :
    (front ++ back).idxOf? name = (back.idxOf? name).map (· + front.length) := by
  induction front with
  | nil => simp
  | cons first front ih =>
      rw [List.mem_cons, not_or] at notMem
      rw [List.cons_append, List.idxOf?_cons, if_neg (by simpa using Ne.symm notMem.1),
        ih notMem.2, Option.map_map, List.length_cons]
      rfl

theorem idxOf?_eq_some_zero_iff {slots : List α} {name : α} :
    slots.idxOf? name = some 0 ↔ slots.head? = some name := by
  cases slots with
  | nil => simp
  | cons first slots =>
      by_cases equal : first = name <;> simp [List.idxOf?_cons, equal]

theorem idxOf?_injective {slots : List α} {first second : α} (mem : first ∈ slots)
    (same : slots.idxOf? first = slots.idxOf? second) : first = second := by
  rcases Option.isSome_iff_exists.mp (List.isSome_idxOf?.mpr mem) with ⟨index, found⟩
  rcases List.idxOf?_eq_some_iff.mp found with ⟨bound, firstAt, _⟩
  rcases List.idxOf?_eq_some_iff.mp (same ▸ found) with ⟨_, secondAt, _⟩
  exact firstAt.symm.trans secondAt

end Slots

/-- Layouts by class name, in order of registration. -/
abbrev LayoutTable := List (Ident × List Ident)

/-- Why the layout pass stops without a table. -/
inductive LayoutError where
  /-- Two classes of one bare name reached the pass. -/
  | duplicateClass (message : String)
  /-- The recursion over the `extends` clauses ran out of fuel. -/
  | outOfFuel
  deriving DecidableEq, Repr

/-- The class table `class_ast_map`: of two classes with one name the later
one is kept. -/
def classAstMap (classes : List ClassDecl) (name : Ident) : Option ClassDecl :=
  classes.reverse.find? fun c => c.name == name

/-- Append the names that are not yet present, in order. -/
def pushFields (fields : List Ident) (own : List FieldDef) : List Ident :=
  own.foldl (fun fields f => if fields.contains f.name then fields else fields ++ [f.name]) fields

/-- All field names of a class in inheritance order: ancestor fields first, own
last.  The recursion follows `extends` and needs fuel, because the checker
accepts cyclic hierarchies. -/
def collectInheritedFields (classes : List ClassDecl) : Nat → Ident → Option (List Ident)
  | 0, _ => none
  | fuel + 1, name =>
      match classAstMap classes name with
      | none => some []
      | some c =>
          match c.extends_ with
          | none => some (pushFields [] c.fields)
          | some parent =>
              (collectInheritedFields classes fuel parent).map fun fields =>
                pushFields fields c.fields

/-- The checker's `interface_implementations`, as handed to the generator. -/
def interfaceImplementations (classes : List ClassDecl) (name : Ident) : List Ident :=
  ((classAstMap classes name).map ClassDecl.implements).getD []

/-- Whether the layout pass gives a class a vtable slot.  Generic classes are
registered with their type-erased fields only. -/
def hasVtable (classes : List ClassDecl) (c : ClassDecl) : Bool :=
  c.typeParams.isEmpty &&
    (!c.implements.isEmpty || !(interfaceImplementations classes c.name).isEmpty)

/-- Whether the layout pass appends the synthetic `log` field. -/
def hasLog (c : ClassDecl) : Bool :=
  c.typeParams.isEmpty && c.annotations.any fun annotation => annotation.name == "Log"

/-- The slot list of one class, given its collected fields. -/
def slotsOf (vtable log : Bool) (fields : List Ident) : List Ident :=
  (if vtable then ["__vtable__"] else []) ++ fields ++ (if log then ["log"] else [])

/-- The message of issue 139. -/
def duplicateClassMessage (name : Ident) : String :=
  "class name '" ++ name ++ "' is defined by two different classes in imported modules -- " ++
    "the compiler cannot distinguish same-named classes across modules (issue #139). " ++
    "Rename one of them, or avoid importing both modules in the same program."

/-- Register the layout of one class. -/
def registerClass (classes : List ClassDecl) (fuel : Nat) (table : LayoutTable) (c : ClassDecl) :
    Except LayoutError LayoutTable :=
  match collectInheritedFields classes fuel c.name with
  | none => .error .outOfFuel
  | some fields =>
      if (table.lookup c.name).isSome then
        if c.typeParams.isEmpty then
          .error (.duplicateClass (duplicateClassMessage c.name))
        else
          .ok table
      else
        .ok (table ++ [(c.name, slotsOf (hasVtable classes c) (hasLog c) fields)])

/-- `struct_layouts` after the first pass over the classes of a file. -/
def structLayouts (classes : List ClassDecl) (fuel : Nat) : Except LayoutError LayoutTable :=
  classes.foldlM (registerClass classes fuel) []

/-- The slot that a layout assigns to a name: its first position. -/
def slot (layout : List Ident) (name : Ident) : Option Nat :=
  layout.idxOf? name

/-- The slot through which vtable dispatch reads the vtable pointer. -/
def vtableSlot (classes : List ClassDecl) (c : ClassDecl) : Option Nat :=
  if hasVtable classes c then some 0 else none

variable {name : Ident} {table : LayoutTable} {classes : List ClassDecl} {fuel : Nat}

theorem lookup_append {extra : LayoutTable} :
    (table ++ extra).lookup name = (table.lookup name).or (extra.lookup name) := by
  induction table with
  | nil => simp
  | cons entry table ih =>
      rcases entry with ⟨key, layout⟩
      rw [List.cons_append, List.lookup_cons, List.lookup_cons, ih]
      split <;> simp

/-- The class whose layout is registered under a name: of two classes with one
name, the earlier one. -/
def registeredClass (classes : List ClassDecl) (name : Ident) : Option ClassDecl :=
  classes.find? fun c => c.name == name

/-- A table that registers exactly the classes of `done`, each with the slots
of the first class of its name. -/
def Registers (classes : List ClassDecl) (fuel : Nat) (done : List ClassDecl) (table : LayoutTable) :
    Prop :=
  ∀ name, (table.lookup name).isSome = (registeredClass done name).isSome ∧
    ∀ layout, table.lookup name = some layout →
      ∃ c fields, registeredClass done name = some c ∧
        collectInheritedFields classes fuel name = some fields ∧
        layout = slotsOf (hasVtable classes c) (hasLog c) fields

theorem registeredClass_append_singleton {done : List ClassDecl} {c : ClassDecl} :
    registeredClass (done ++ [c]) name =
      (registeredClass done name).or (if c.name = name then some c else none) := by
  simp [registeredClass, List.find?_append, List.find?_cons]
  split <;> simp_all

theorem registerClass_registers {done : List ClassDecl} {next : LayoutTable} {c : ClassDecl}
    (exact_ : Registers classes fuel done table)
    (registered : registerClass classes fuel table c = .ok next) :
    Registers classes fuel (done ++ [c]) next := by
  unfold registerClass at registered
  cases collected : collectInheritedFields classes fuel c.name with
  | none => simp [collected] at registered
  | some fields =>
      simp only [collected] at registered
      by_cases known : (table.lookup c.name).isSome
      · -- A second generic class of one name leaves the table as it is.
        rw [if_pos known] at registered
        split at registered
        · cases registered
        · cases registered
          have knownClass := (exact_ c.name).1.symm.trans known
          intro name
          rw [registeredClass_append_singleton]
          by_cases same : c.name = name
          · subst same
            rcases Option.isSome_iff_exists.mp knownClass with ⟨first, found⟩
            simpa [found] using exact_ c.name
          · simpa [same] using exact_ name
      · rw [if_neg known] at registered
        cases registered
        have unknownClass : registeredClass done c.name = none := by
          have := (exact_ c.name).1
          simpa [known] using this.symm
        have notFound : table.lookup c.name = none :=
          Option.not_isSome_iff_eq_none.mp known
        intro name
        rw [registeredClass_append_singleton, lookup_append]
        by_cases same : c.name = name
        · subst same
          simp only [notFound, unknownClass, Option.none_or, if_pos, List.lookup_cons_self,
            Option.isSome_some, true_and]
          rintro layout ⟨rfl⟩
          exact ⟨c, fields, rfl, collected, rfl⟩
        · have other : (name == c.name) = false := by simpa using Ne.symm same
          simpa [same, List.lookup_cons, other] using exact_ name

theorem foldlM_registers {todo : List ClassDecl} :
    ∀ {done : List ClassDecl} {table final : LayoutTable}, Registers classes fuel done table →
      todo.foldlM (registerClass classes fuel) table = .ok final →
      Registers classes fuel (done ++ todo) final := by
  induction todo with
  | nil =>
      rintro done table final exact_ ⟨rfl⟩
      simpa using exact_
  | cons c todo ih =>
      intro done table final exact_ folded
      rw [List.foldlM_cons] at folded
      cases step : registerClass classes fuel table c with
      | error error => simp [step, bind, Except.bind] at folded
      | ok next =>
          simp only [step, bind, Except.bind] at folded
          simpa using ih (registerClass_registers exact_ step) folded

/-- Every layout of the final table is the slot list of the registered class of
its name, built from the fields collected for the name. -/
theorem structLayouts_spec (laidOut : structLayouts classes fuel = .ok table) {layout : List Ident}
    (found : table.lookup name = some layout) : ∃ c fields, registeredClass classes name = some c ∧
      collectInheritedFields classes fuel name = some fields ∧
      layout = slotsOf (hasVtable classes c) (hasLog c) fields := by
  have nothingYet : Registers classes fuel [] [] := by
    intro name
    simp [registeredClass]
  exact (foldlM_registers nothingYet laidOut name).2 layout found

variable {fields : List Ident}

theorem pushFields_prefix (fields : List Ident) (own : List FieldDef) :
    fields <+: pushFields fields own := by
  induction own generalizing fields with
  | nil => exact List.prefix_rfl
  | cons f own ih =>
      unfold pushFields at ih ⊢
      rw [List.foldl_cons]
      refine List.IsPrefix.trans ?_ (ih _)
      split
      · exact List.prefix_rfl
      · exact List.prefix_append _ _

theorem collectInheritedFields_mono {more : Nat} (le : fuel ≤ more)
    (collected : collectInheritedFields classes fuel name = some fields) :
    collectInheritedFields classes more name = some fields := by
  induction fuel generalizing more name fields with
  | zero => simp [collectInheritedFields] at collected
  | succ fuel ih =>
      obtain ⟨more, rfl⟩ : ∃ n, more = n + 1 := ⟨more - 1, by omega⟩
      unfold collectInheritedFields at collected ⊢
      cases found : classAstMap classes name with
      | none => simpa [found] using collected
      | some c =>
          cases parentOf : c.extends_ with
          | none => simpa [found, parentOf] using collected
          | some parent =>
              simp only [found, parentOf, Option.map_eq_some_iff] at collected ⊢
              rcases collected with ⟨inherited, inheritedEq, rfl⟩
              exact ⟨inherited, ih (by omega) inheritedEq, rfl⟩

/-- `child` names `parent` in its `extends` clause. -/
def Extends (classes : List ClassDecl) (child parent : Ident) : Prop :=
  ∃ c, classAstMap classes child = some c ∧ c.extends_ = some parent

theorem collectInheritedFields_extends {child parent : Ident}
    (extends_ : Extends classes child parent)
    (collected : collectInheritedFields classes fuel child = some fields) :
    ∃ inherited, collectInheritedFields classes fuel parent = some inherited ∧
      inherited <+: fields := by
  rcases extends_ with ⟨c, found, parentOf⟩
  cases fuel with
  | zero => simp [collectInheritedFields] at collected
  | succ fuel =>
      simp only [collectInheritedFields, found, parentOf, Option.map_eq_some_iff] at collected
      rcases collected with ⟨inherited, inheritedEq, rfl⟩
      exact ⟨inherited, collectInheritedFields_mono (Nat.le_succ fuel) inheritedEq,
        pushFields_prefix _ _⟩

theorem collectInheritedFields_ancestor {descendant ancestor : Ident}
    (extends_ : Relation.TransGen (Extends classes) descendant ancestor)
    (collected : collectInheritedFields classes fuel descendant = some fields) :
    ∃ inherited, collectInheritedFields classes fuel ancestor = some inherited ∧
      inherited <+: fields := by
  induction extends_ with
  | single direct => exact collectInheritedFields_extends direct collected
  | tail _ last ih =>
      rcases ih with ⟨middle, middleEq, middlePrefix⟩
      rcases collectInheritedFields_extends last middleEq with ⟨inherited, inheritedEq, inheritedPrefix⟩
      exact ⟨inherited, inheritedEq, inheritedPrefix.trans middlePrefix⟩

/-- `hasVtable` of the class registered under a name. -/
def vtableOf (classes : List ClassDecl) (name : Ident) : Bool :=
  (registeredClass classes name).any (hasVtable classes)

/-- `hasLog` of the class registered under a name. -/
def logOf (classes : List ClassDecl) (name : Ident) : Bool :=
  (registeredClass classes name).any hasLog

/-- The declared fields of a class, its ancestors' fields included. -/
def fieldsOf (classes : List ClassDecl) (fuel : Nat) (name : Ident) : List Ident :=
  (collectInheritedFields classes fuel name).getD []

/-- Code compiled against the layout of `ancestor` finds its slots at the same
positions in the layout of `descendant`. -/
structure InheritsSlots (classes : List ClassDecl) (fuel : Nat) (descendant ancestor : Ident)
    (layout inherited : List Ident) : Prop where
  /-- The vtable pointer of the ancestor is where the descendant stores its own. -/
  vtable : vtableOf classes ancestor = true → vtableOf classes descendant = true
  /-- Every declared field keeps its slot. -/
  fields : ∀ f ∈ fieldsOf classes fuel ancestor, slot layout f = slot inherited f
  /-- The synthetic log field keeps its slot. -/
  log : logOf classes ancestor = true → slot layout "log" = slot inherited "log"

/-- No two names of a layout share a slot. -/
def DistinctSlots (layout : List Ident) : Prop :=
  ∀ first ∈ layout, ∀ second ∈ layout, slot layout first = slot layout second → first = second

theorem distinctSlots (layout : List Ident) : DistinctSlots layout :=
  fun _ mem _ _ same => idxOf?_injective mem same

/-- The two classes agree on having a vtable slot, or the ancestor has nothing
that the descendant's vtable slot could displace. -/
def VtableCompatible (classes : List ClassDecl) (fuel : Nat) (descendant ancestor : Ident) : Prop :=
  vtableOf classes descendant = vtableOf classes ancestor ∨
    vtableOf classes ancestor = false ∧ logOf classes ancestor = false ∧
      ∀ f ∈ fieldsOf classes fuel ancestor, f = "__vtable__"

/-- The slots a class adds after the declared fields of an ancestor. -/
def addedSlots (classes : List ClassDecl) (fuel : Nat) (descendant ancestor : Ident) : List Ident :=
  (fieldsOf classes fuel descendant).drop (fieldsOf classes fuel ancestor).length ++
    (if logOf classes descendant then ["log"] else [])

/-- The synthetic log field of the ancestor, unless it only repeats a declared
field, is the first slot that the descendant adds. -/
def LogCompatible (classes : List ClassDecl) (fuel : Nat) (descendant ancestor : Ident) : Prop :=
  logOf classes ancestor = true → "log" ∈ fieldsOf classes fuel ancestor ∨
    (addedSlots classes fuel descendant ancestor).head? = some "log"

theorem layouts_eq (laidOut : structLayouts classes fuel = .ok table) {descendant ancestor : Ident}
    (extends_ : Relation.TransGen (Extends classes) descendant ancestor)
    {layout inherited : List Ident} (ofDescendant : table.lookup descendant = some layout)
    (ofAncestor : table.lookup ancestor = some inherited) :
    layout = (if vtableOf classes descendant then ["__vtable__"] else []) ++
        (fieldsOf classes fuel ancestor ++ addedSlots classes fuel descendant ancestor) ∧
      inherited = (if vtableOf classes ancestor then ["__vtable__"] else []) ++
        (fieldsOf classes fuel ancestor ++ (if logOf classes ancestor then ["log"] else [])) := by
  rcases structLayouts_spec laidOut ofDescendant with ⟨d, fields, registeredD, collectedD, rfl⟩
  rcases structLayouts_spec laidOut ofAncestor with ⟨a, fieldsA, registeredA, collectedA, rfl⟩
  rcases collectInheritedFields_ancestor extends_ collectedD with ⟨_, collectedA', fieldPrefix⟩
  rcases Option.some.inj (collectedA.symm.trans collectedA') with rfl
  rcases fieldPrefix with ⟨extra, rfl⟩
  simp [slotsOf, vtableOf, logOf, fieldsOf, addedSlots, registeredD, registeredA, collectedD,
    collectedA]

/-- With equal vtable flags, declared fields keep their slots and the synthetic
log field keeps its slot exactly when the descendant continues with it. -/
theorem inheritsSlots_of_vtable_eq (vtable log : Bool) (fields added : List Ident) :
    (∀ f ∈ fields,
      slot ((if vtable then ["__vtable__"] else []) ++ (fields ++ added)) f =
        slot ((if vtable then ["__vtable__"] else []) ++
          (fields ++ (if log then ["log"] else []))) f) ∧
    (log = true →
      (slot ((if vtable then ["__vtable__"] else []) ++ (fields ++ added)) "log" =
        slot ((if vtable then ["__vtable__"] else []) ++
          (fields ++ (if log then ["log"] else []))) "log" ↔
        "log" ∈ fields ∨ added.head? = some "log")) := by
  simp only [slot, ← List.append_assoc]
  constructor
  · intro f mem
    rw [idxOf?_append_of_mem (List.mem_append_right _ mem),
      idxOf?_append_of_mem (List.mem_append_right _ mem)]
  · rintro rfl
    by_cases mem : "log" ∈ fields
    · rw [idxOf?_append_of_mem (List.mem_append_right _ mem),
        idxOf?_append_of_mem (List.mem_append_right _ mem)]
      simp [mem]
    · have notMem : "log" ∉ (if vtable then ["__vtable__"] else []) ++ fields := by
        cases vtable <;> simp [mem]
      rw [idxOf?_append_of_notMem notMem, idxOf?_append_of_notMem notMem,
        ← idxOf?_eq_some_zero_iff]
      cases found : added.idxOf? "log" with
      | none => simp [mem]
      | some index => simp [mem]

/-- Behind a vtable slot that the ancestor lacks, every declared field other
than one called like the vtable slot is displaced. -/
theorem slot_displaced {added back : List Ident} (mem : name ∈ fields) (other : name ≠ "__vtable__") :
    slot ("__vtable__" :: (fields ++ added)) name ≠ slot (fields ++ back) name := by
  rcases Option.isSome_iff_exists.mp (List.isSome_idxOf?.mpr mem) with ⟨index, found⟩
  simp only [slot]
  rw [List.idxOf?_cons, if_neg (by simpa using Ne.symm other), idxOf?_append_of_mem mem,
    idxOf?_append_of_mem mem, found]
  simp

/-- Behind a vtable slot that the ancestor lacks, its synthetic log field is
displaced. -/
theorem slot_log_displaced {added : List Ident} :
    slot ("__vtable__" :: (fields ++ added)) "log" ≠ slot (fields ++ ["log"]) "log" := by
  by_cases mem : "log" ∈ fields
  · exact slot_displaced mem (by decide)
  · simp only [slot]
    rw [List.idxOf?_cons, if_neg (by decide), idxOf?_append_of_notMem mem,
      idxOf?_append_of_notMem mem]
    cases added.idxOf? "log" <;> simp
    omega

/-- A field declaration `var name: Int64;`. -/
def intField (name : Ident) : FieldDef :=
  { name, fieldType := .int64, visibility := .package, mutable := true, doc := none,
    annotations := [] }

/-- `class Shape { var area: Int64; }` and
`class Circle extends Shape implements Drawable { .. }`. -/
def shapes : List ClassDecl :=
  [{ name := "Shape", typeParams := [], extends_ := none, implements := [],
     fields := [intField "area"], methods := [], doc := none, annotations := [] },
   { name := "Circle", typeParams := [], extends_ := some "Shape", implements := ["Drawable"],
     fields := [intField "radius"], methods := [], doc := none, annotations := [] }]

theorem shapes_layouts :
    structLayouts shapes 3 =
      .ok [("Shape", ["area"]), ("Circle", ["__vtable__", "area", "radius"])] := by
  rfl

theorem shapes_extends : Relation.TransGen (Extends shapes) "Circle" "Shape" :=
  .single ⟨_, rfl, rfl⟩

end Tinox.Codegen.Layout
