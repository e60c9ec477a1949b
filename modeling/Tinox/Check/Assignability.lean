import Tinox.Check.Met
import Tinox.Check.Inheritance
import Tinox.Check.Clauses

/-!
# Assignability to interfaces

A class may be used where an interface is expected when its own declaration names the interface.
What it extends, and what extends the interface, make no difference.
-/

namespace Tinox.Check

open Tinox.Syntax Check

variable {builtins : String → Option Signature} {file : SourceFile}

/-- What a type may stand below. -/
inductive Layer where
  | list | map | nullable
  deriving DecidableEq

def Layer.wrap : Layer → ValueType → ValueType
  | .list, type => .array type
  | .map, type => .map type
  | .nullable, type => .nullable type

/-- A type below layers. -/
def nested (layers : List Layer) (type : ValueType) : ValueType :=
  layers.foldr Layer.wrap type

/-- The layers of a value where some types that are expected are nullable. -/
def present (layers : List Layer) : List Layer :=
  layers.filter (· ≠ .nullable)

section Compatible

variable {implementations : String → Option (List String)}

theorem typesCompatible_of_beq {a b : ValueType} (same : (a == b) = true) :
    typesCompatible implementations a b = true := by
  cases a <;> simp [typesCompatible, same]

theorem typesCompatible_array (a b : ValueType) :
    typesCompatible implementations (.array a) (.array b) = typesCompatible implementations a b := by
  rw [typesCompatible, Bool.or_eq_right_iff_imp]
  intro same
  exact typesCompatible_of_beq (show (a == b) = true from same)

theorem typesCompatible_map (a b : ValueType) :
    typesCompatible implementations (.map a) (.map b) = typesCompatible implementations a b := by
  rw [typesCompatible, Bool.or_eq_right_iff_imp]
  intro same
  exact typesCompatible_of_beq (show (a == b) = true from same)

theorem typesCompatible_nullable (a : ValueType) {b : ValueType} (notAny : b ≠ .any)
    (notNull : b ≠ .null) (notNullable : ∀ inner, b ≠ .nullable inner) :
    typesCompatible implementations (.nullable a) b = typesCompatible implementations a b := by
  cases b with
  | any => exact absurd rfl notAny
  | null => exact absurd rfl notNull
  | nullable inner => exact absurd rfl (notNullable inner)
  | _ => rfl

theorem nested_present (layers : List Layer) (name : String) (args : List ValueType) :
    nested (present layers) (.named name args) ≠ .any ∧
      nested (present layers) (.named name args) ≠ .null ∧
      ∀ inner, nested (present layers) (.named name args) ≠ .nullable inner := by
  induction layers with
  | nil => exact ⟨nofun, nofun, nofun⟩
  | cons layer layers ih =>
      cases layer with
      | nullable => exact ih
      | _ => exact ⟨nofun, nofun, nofun⟩

theorem typesCompatible_nested (layers : List Layer) (expected : ValueType) (name : String)
    (args : List ValueType) :
    typesCompatible implementations (nested layers expected)
        (nested (present layers) (.named name args)) =
      typesCompatible implementations expected (.named name args) := by
  induction layers with
  | nil => rfl
  | cons layer layers ih =>
      cases layer with
      | list => exact (typesCompatible_array _ _).trans ih
      | map => exact (typesCompatible_map _ _).trans ih
      | nullable =>
          rcases nested_present layers name args with ⟨notAny, notNull, notNullable⟩
          exact (typesCompatible_nullable _ notAny notNull notNullable).trans ih

theorem typesCompatible_named_iff {iface className : String} {args own : List ValueType} :
    typesCompatible implementations (.named iface args) (.named className own) = true ↔
      iface = className ∨ iface ∈ (implementations className).getD [] := by
  rw [typesCompatible, Bool.or_eq_true]
  apply or_congr
  · change (iface == className) = true ↔ iface = className
    exact beq_iff_eq
  · cases implementations className with
    | some interfaces => exact List.contains_iff_mem
    | none => exact iff_of_false Bool.false_ne_true List.not_mem_nil

end Compatible

section Conformance

variable {t : Tables} {s : CheckState}

/-- A parameter against the one that is required in its place. -/
def Tables.Suits (t : Tables) (found required : String × ValueType) : Prop :=
  typesCompatible t.interfaceImplementations found.2 required.2 = true

theorem suits_of_checkParams {className method : String} {index : Nat}
    {found required : List (String × ValueType)} (sameLength : found.length = required.length)
    (accepts : Accepts (checkParams t className method index found required) s) :
    List.Forall₂ t.Suits found required := by
  induction found generalizing index required with
  | nil =>
      rw [List.length_nil, eq_comm, List.length_eq_zero_iff] at sameLength
      subst sameLength
      exact List.Forall₂.nil
  | cons param found ih =>
      cases required with
      | nil => contradiction
      | cons other required =>
          rw [checkParams] at accepts
          rcases accepts_bind.mp accepts with ⟨first, rest⟩
          exact List.Forall₂.cons (accepts_require.mp first).1
            (ih (Nat.succ.inj sameLength) ((Quiet.require _ _ s first) ▸ rest))

/-- A class has a method that an interface requires: one is registered for it, and where the
method has a receiver, its parameters and its result suit the required ones. -/
structure Tables.Implements (t : Tables) (className : String) (required : String × Signature) :
    Prop where
  registered : (t.functions (methodSymbol className required.1)).isSome
  suits : ∀ found receiver params, t.functions (methodSymbol className required.1) = some found →
    found.params = ("self", receiver) :: params → List.Forall₂ t.Suits params required.2.params ∧
      typesCompatible t.interfaceImplementations found.returnType required.2.returnType = true

theorem implements_of_checkRequired {className iface : String} {required : String × Signature}
    (accepts : Accepts (checkRequired t className iface required) s) :
    t.Implements className required := by
  rw [checkRequired] at accepts
  cases isFound : t.functions (methodSymbol className required.1) with
  | none =>
      rw [isFound] at accepts
      exact absurd accepts accepts_report
  | some found =>
      rw [isFound] at accepts
      dsimp only at accepts
      split at accepts
      · exact absurd accepts accepts_report
      next sameCount =>
        rcases accepts_bind.mp accepts with ⟨params, result⟩
        rw [quiet_checkParams _ _ _ _ _ s params] at result
        have sameLength : (found.params.drop 1).length = required.2.params.length := by
          rw [List.length_drop]
          exact not_not.mp sameCount
        have suit := suits_of_checkParams sameLength params
        constructor
        · rw [isFound, Option.isSome_some]
        · intro other receiver others same shape
          rw [isFound] at same
          cases same
          rw [shape] at suit
          exact ⟨suit, (accepts_require.mp result).1⟩

theorem implements_of_checkClass {interfaces : String → Option Methods} {c : ClassDecl}
    (accepts : Accepts (checkClass t interfaces c) s) {iface : Ident} (named : iface ∈ c.implements)
    {methods : Methods} (isInterface : interfaces iface = some methods) :
    ∀ required ∈ methods, t.Implements c.name required := by
  intro required member
  have quietBodies : Quiet (c.methods.forM fun method => checkBody (methodBody t c method)) :=
    Quiet.forM _ fun method => quiet_inScope _
  rcases accepts_bind.mp accepts with ⟨bodies, conforming⟩
  rw [quietBodies s bodies, checkInterfaces] at conforming
  have quietInterface : ∀ iface, Quiet
      (((interfaces iface).getD []).forM (checkRequired t c.name iface)) :=
    fun iface => Quiet.forM _ fun required => quiet_checkRequired _ _ _
  have one := accepts_forM quietInterface conforming iface named
  rw [isInterface, Option.getD_some] at one
  exact implements_of_checkRequired
    (accepts_forM (fun required => quiet_checkRequired _ _ _) one required member)

end Conformance

/-- A class, or one that it extends, names an interface, or one that extends the interface. -/
def InheritsInterface (file : SourceFile) (className iface : String) : Prop :=
  ∃ ancestor decl named, Relation.ReflTransGen (Extends file) className ancestor ∧
    classMap file ancestor = some decl ∧ named ∈ decl.implements ∧
      (registerAll (fun _ => none) file).Family named iface

/-- A class may be used where an interface is expected, below all layers. -/
def AssignableTo (r : Registered) (className iface : String) : Prop :=
  ∀ layers args own, typesCompatible r.tables.interfaceImplementations
    (nested layers (.named iface args)) (nested layers (.named className own)) = true

/-- If the class is accepted, then it has the methods of the interface. -/
def ConformsTo (r : Registered) (decl : ClassDecl) (iface : String) : Prop :=
  ∀ t s, Accepts (checkClass t r.interfaces decl) s → ∀ methods, r.interfaces iface = some methods →
    ∀ required ∈ methods, t.Implements decl.name required

/-- A class is assignable to the interfaces that its declaration names and to no others, and
has their methods if it is accepted. -/
theorem assignable_iff_named (builtins : String → Option Signature) (file : SourceFile)
    (orders : Orders file) (processing : Processing file) {className : String} {decl : ClassDecl}
    (declared : classMap file className = some decl) :
    (∀ iface layers args own,
      typesCompatible (register builtins file orders processing).tables.interfaceImplementations
          (nested layers (.named iface args)) (nested (present layers) (.named className own)) = true ↔
        iface = className ∨ iface ∈ decl.implements) ∧
      ∀ iface ∈ decl.implements, ConformsTo (register builtins file orders processing) decl iface := by
  constructor
  · intro iface layers args own
    rw [typesCompatible_nested, typesCompatible_named_iff, implementations_register, declared]
    rfl
  · intro iface named t s accepts methods isInterface
    exact implements_of_checkClass accepts named isInterface

/-- `fn draw(scale: type) { }`. -/
def drawMethod (type : Ty) : Method where
  name := "draw"
  typeParams := []
  params := [⟨"scale", type, []⟩]
  retType := .nothing
  body := .block []
  static_ := false
  visibility := .pub
  isAsync := false
  doc := none
  annotations := []

/-- `interface Drawable { fn draw(scale: Int64); }`. -/
def drawable : InterfaceDecl where
  name := "Drawable"
  extends_ := []
  methods := [⟨"draw", [], [⟨"scale", .int64, []⟩], .nothing, .empty, false, none, []⟩]
  doc := none
  annotations := []

/-- `class Figure implements Drawable { fn draw(scale: Int64) { } }`. -/
def figure : ClassDecl where
  name := "Figure"
  typeParams := []
  extends_ := none
  implements := ["Drawable"]
  fields := []
  methods := [drawMethod .int64]
  doc := none
  annotations := []

/-- `class Circle extends Figure { fn draw(scale: String) { } }`. -/
def circle : ClassDecl where
  name := "Circle"
  typeParams := []
  extends_ := some "Figure"
  implements := []
  fields := []
  methods := [drawMethod .string]
  doc := none
  annotations := []

def figureFile : SourceFile :=
  ⟨[.interface drawable, .class_ figure, .class_ circle]⟩

def figureOrders : Orders figureFile :=
  Orders.sorted figureFile (fun _ => true) fun _ => true

def figureProcessing : Processing figureFile where
  order := [figure, circle]
  nodup := by decide
  classes := by
    intro c member
    rcases List.mem_pair.mp member with rfl | rfl
    · rfl
    · rfl
  parentsFirst := by
    intro before c after parent split extends_ _
    rcases List.cons_eq_append_iff.mp split with ⟨rfl, same⟩ | ⟨rest, rfl, same⟩
    · cases same
      contradiction
    · rcases List.cons_eq_append_iff.mp same with ⟨rfl, same⟩ | ⟨other, rfl, same⟩
      · cases same
        cases extends_
        exact List.mem_cons_self
      · exact absurd (congrArg List.length same) (by simp)
  complete := by
    intro name c found _
    exact (mem_of_classMap found).1

theorem assignable_iff_named_circle :
    (∀ iface layers args own,
      typesCompatible
          (register (fun _ => none) figureFile figureOrders figureProcessing).tables.interfaceImplementations
          (nested layers (.named iface args)) (nested (present layers) (.named "Circle" own)) = true ↔
        iface = "Circle" ∨ iface ∈ circle.implements) ∧
      ∀ iface ∈ circle.implements,
        ConformsTo (register (fun _ => none) figureFile figureOrders figureProcessing) circle iface :=
  assignable_iff_named (fun _ => none) figureFile figureOrders figureProcessing rfl

theorem inheritsInterface_circle : InheritsInterface figureFile "Circle" "Drawable" :=
  ⟨"Figure", figure, "Drawable",
    Relation.ReflTransGen.single ⟨circle, List.mem_cons_of_mem _ List.mem_cons_self, rfl, rfl⟩, rfl,
    List.mem_cons_self, Relation.ReflTransGen.refl⟩

theorem accepts_circle :
    Accepts (checkClass (register (fun _ => none) figureFile figureOrders figureProcessing).tables
      (register (fun _ => none) figureFile figureOrders figureProcessing).interfaces circle)
      (register (fun _ => none) figureFile figureOrders figureProcessing).state := by
  have body : ∀ t : Tables, methodBody t circle (drawMethod .string) =
      ⟨{ t with typeParamScope := [], currentClass := some "Circle" },
        [("self", .named "Circle" []), ("scale", .string)], .nothing, false, .block []⟩ := by
    intro t
    simp only [methodBody, circle, drawMethod, typeToValueErasing, fromParserType, List.map_cons,
      List.map_nil]
    rfl
  have split : ∀ t s, Accepts (checkClass t
      (register (fun _ => none) figureFile figureOrders figureProcessing).interfaces circle) s ↔
        ((checkBody (methodBody t circle (drawMethod .string))).run s).2.errors = [] :=
    fun _ _ => Iff.rfl
  rw [split, body]
  decide

/-- The parent of the class names the interface.  The class is not assignable to it, and is accepted
with a method whose parameter does not suit the interface. -/
theorem circle_notAssignable :
    (¬ ∀ (builtins : String → Option Signature) (file : SourceFile) (orders : Orders file)
        (processing : Processing file) (className iface : String),
        InheritsInterface file className iface →
          AssignableTo (register builtins file orders processing) className iface) ∧
      ¬ ∀ (builtins : String → Option Signature) (file : SourceFile) (orders : Orders file)
        (processing : Processing file) (className iface : String) (decl : ClassDecl),
        InheritsInterface file className iface → classMap file className = some decl →
          ConformsTo (register builtins file orders processing) decl iface := by
  constructor
  · intro claim
    have assignable := claim (fun _ => none) figureFile figureOrders figureProcessing _ _
      inheritsInterface_circle [] [] []
    rw [nested, nested, List.foldr_nil, List.foldr_nil, typesCompatible_named_iff,
      implementations_register] at assignable
    rcases assignable with same | named
    · exact absurd same (by decide)
    · exact absurd named (by decide)
  · intro claim
    have conforms := claim (fun _ => none) figureFile figureOrders figureProcessing _ _ circle
      inheritsInterface_circle rfl _ _ accepts_circle (drawable.methods.map methodEntry) rfl
    have draw := (conforms _ List.mem_cons_self).suits (methodSignature circle (drawMethod .string))
      _ _ rfl rfl
    have suits := (List.forall₂_cons.mp draw.1).1
    simp only [Tables.Suits, typeToValueErasing, fromParserType] at suits
    exact absurd suits (by decide)

end Tinox.Check
