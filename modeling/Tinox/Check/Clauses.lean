import Tinox.Check.Members

/-!
# Clauses of classes

Which class a class extends and which interfaces it implements is registered with its head, by
the first pass.  Fields, methods and the later passes leave it alone.
-/

namespace Tinox.Check

open Tinox.Syntax

variable {builtins : String → Option Signature} {file : SourceFile}

/-- What the tables say about the clauses of classes: their parents and their interfaces. -/
def heads (r : Registered) : List (String × String) × (String → Option (List String)) :=
  (r.tables.classParents, r.tables.interfaceImplementations)

theorem heads_foldl {α : Type} {step : Registered → α → Registered}
    (same : ∀ r item, heads (step r item) = heads r) (items : List α) (r : Registered) :
    heads (items.foldl step r) = heads r := by
  induction items generalizing r with
  | nil => rfl
  | cons item items ih => rw [List.foldl_cons, ih, same]

theorem heads_insertUsesThis (r : Registered) (condition : Bool) (key : String) :
    heads (r.insertUsesThis condition key) = heads r := by
  rw [Registered.insertUsesThis]
  split <;> rfl

theorem heads_registerMethod (c : ClassDecl) (r : Registered) (method : Method) :
    heads (registerMethod c r method) = heads r := by
  have generic : ∀ r, heads (registerGeneric c method r) = heads r := by
    intro r
    rw [registerGeneric]
    dsimp only
    split <;> rfl
  exact (generic _).trans (heads_insertUsesThis _ _ _)

theorem heads_registerClass (r : Registered) (c : ClassDecl) :
    heads (registerClass r c) = heads (registerHead c r) := by
  have json : ∀ r, heads (registerJson c r) = heads r := by
    intro r
    rw [registerJson]
    split <;> rfl
  have log : ∀ r, heads (registerLog c r) = heads r := by
    intro r
    rw [registerLog]
    split <;> rfl
  have field : ∀ r field, heads (registerField c.name r field) = heads r :=
    fun _ _ => rfl
  rw [registerClass, json, heads_foldl (heads_registerMethod c), log, heads_foldl field]

theorem heads_enterDecl (r : Registered) (decl : Decl) :
    heads (enterDecl r decl) =
      match classOf decl with
      | some c => heads (registerHead c r)
      | none => heads r := by
  cases decl with
  | class_ c => exact heads_registerClass r c
  | enum e =>
      have variant : ∀ r variant, heads (registerVariant e.name r variant) = heads r :=
        fun _ _ => rfl
      exact heads_foldl variant e.variants _
  | immutable u =>
      have field : ∀ r field, heads (registerImmutableField u.name r field) = heads r :=
        fun _ _ => rfl
      exact heads_foldl field u.fields _
  | _ => rfl

theorem heads_inheritClass (r : Registered) (c : ClassDecl) :
    heads (inheritClass file r c) = heads r := by
  have field : ∀ r field, heads (inheritField c r field) = heads r := by
    intro r field
    rw [inheritField]
    split <;> rfl
  have method : ∀ r method, heads (inheritClassMethod c r method) = heads r := by
    intro r method
    rw [inheritClassMethod]
    split
    · rfl
    · exact heads_insertUsesThis _ _ _
  have ancestor : ∀ r ancestor, heads (inheritFrom c r ancestor) = heads r := by
    intro r ancestor
    rw [inheritFrom, heads_foldl method, heads_foldl field]
  rw [inheritClass]
  split
  · split
    · rfl
    · exact heads_foldl ancestor _ _
  · rfl

theorem heads_register (builtins : String → Option Signature) (orders : Orders file) (processing : Processing file) :
    heads (register builtins file orders processing) = heads (enterAllDecls builtins file) := by
  rw [register, heads_foldl heads_inheritClass]
  rfl

/-- The interfaces that are listed for a class are those that its last declaration names. -/
theorem implementations_register (orders : Orders file) (processing : Processing file) (name : String) :
    (register builtins file orders processing).tables.interfaceImplementations name =
      (classMap file name).map ClassDecl.implements := by
  have loop : ∀ (decls : List Decl) (r : Registered),
      (heads (decls.foldl enterDecl r)).2 name =
        (((decls.filterMap classOf).reverse.find? fun c => c.name == name).map
          ClassDecl.implements).or ((heads r).2 name) := by
    intro decls r
    induction decls generalizing r with
    | nil => rfl
    | cons decl decls ih =>
        rw [List.foldl_cons, ih, heads_enterDecl, List.filterMap_cons]
        cases classOf decl with
        | none => rfl
        | some c =>
            have entered : (heads (registerHead c r)).2 name =
                (((([c].find? fun c => c.name == name)).map ClassDecl.implements).or
                  ((heads r).2 name)) := by
              by_cases same : c.name = name
              · subst same
                simp [heads, registerHead]
              · simp [heads, registerHead, same, Function.update_of_ne (Ne.symm same)]
            dsimp only
            rw [List.reverse_cons, List.find?_append, Option.map_or, Option.or_assoc, entered]
  have passes := congrArg Prod.snd (heads_register builtins orders processing)
  have first := loop (flattenDecls file) (newChecker builtins)
  calc (register builtins file orders processing).tables.interfaceImplementations name
      = (heads (enterAllDecls builtins file)).2 name := congrFun passes name
    _ = ((classMap file name).map ClassDecl.implements).or none := first
    _ = (classMap file name).map ClassDecl.implements := Option.or_none

end Tinox.Check
