import Tinox.Check.Members
import Tinox.Check.Met
import Tinox.Data.Entries

/-!
# Access to members

A field or a method may be private to its class, or protected.  Field accesses
and method calls on values are compared with the tables of visibilities, under
the class of the value; other ways to a member are not.
-/

namespace Tinox.Check

open Tinox.Syntax Check CheckState

/-- A member that is looked up in a class, and whether the tables of visibilities are consulted
for it. -/
structure Use where
  kind : MemberKind
  className : String
  name : Ident
  checked : Bool

/-- The members that an expression uses.  A value of unknown type has no members. -/
inductive Uses (file : SourceFile) (t : Tables) (s : CheckState) : Expr → Use → Prop
  /-- `obj.field`. -/
  | field {obj : Expr} {field : Ident} {className : String} {args : List ValueType} :
      ((inferType t obj).run s).1 = .named className args →
        Uses file t s (.fieldAccess obj field) ⟨.field, className, field, true⟩
  /-- `obj.method(…)`. -/
  | method {obj : Expr} {method : Ident} {args : List Expr} :
      staticTarget t s obj method = .none → (((inferType t obj).run s).1 == .any) = false →
        isFnVariable ((inferType t obj).run s).2
          (fieldKey ((inferType t obj).run s).1.toText method) = false →
          Uses file t s (.methodCall obj method args)
            ⟨.method, ((inferType t obj).run s).1.toText, method, true⟩
  /-- `obj.field(…)`, where the field is a function. -/
  | called {obj : Expr} {method : Ident} {args : List Expr} :
      staticTarget t s obj method = .none → (((inferType t obj).run s).1 == .any) = false →
        isFnVariable ((inferType t obj).run s).2
          (fieldKey ((inferType t obj).run s).1.toText method) = true →
          Uses file t s (.methodCall obj method args)
            ⟨.field, ((inferType t obj).run s).1.toText, method, false⟩
  /-- `Class.method(…)`. -/
  | static {className method : Ident} {args : List Expr} :
      staticTarget t s (.ident className) method ≠ .none →
        Uses file t s (.methodCall (.ident className) method args) ⟨.method, className, method, false⟩
  /-- `Class::method(…)`. -/
  | path {className method : Ident} {typeArgs : List Ty} {args : List Expr} :
      Uses file t s (.enumValue className method typeArgs args) ⟨.method, className, method, false⟩
  /-- `Class { field: value }`. -/
  | literal {className field : Ident} {value : Expr} {fields : List (Ident × Expr)} :
      (field, value) ∈ fields →
        Uses file t s (.structLiteral className fields) ⟨.field, className, field, false⟩
  /-- `super.method(…)`. -/
  | super {current parent : String} {method : Ident} {args : List Expr} :
      t.currentClass = some current → t.classParents.lookup current = some parent →
        Uses file t s (.superCall method args) ⟨.method, parent, method, false⟩
  /-- `method(…)` in a method of the class. -/
  | sibling {current : String} {method : Ident} {args : List Expr} :
      t.functions method = none → t.currentClass = some current →
        Uses file t s (.call (.ident method) args) ⟨.method, current, method, false⟩
  /-- `Class_method(…)`, by the symbol of the method. -/
  | symbol {className method : String} {args : List Expr} :
      (∀ f, .function f ∈ flattenDecls file → f.name ≠ methodSymbol className method) →
        Uses file t s (.call (.ident (methodSymbol className method)) args)
          ⟨.method, className, method, false⟩
  /-- `Class_method` as a value. -/
  | value {className method : String} :
      s.lookup (methodSymbol className method) = none →
        (∀ f, .function f ∈ flattenDecls file → f.name ≠ methodSymbol className method) →
          Uses file t s (.ident (methodSymbol className method)) ⟨.method, className, method, false⟩

/-- Where a member that a class declares with a visibility may be used. -/
def Permitted (file : SourceFile) (current : Option String) (owner : String) : Visibility → Prop
  | .priv => current = some owner
  | .prot => ∃ className, current = some className ∧
      Relation.ReflTransGen (Extends file) className owner
  | .pub | .package => True

/-- Every use of a member in a program, at any depth, is permitted. -/
def AccessControlled (registered : Registered) (file : SourceFile) : Prop :=
  ∀ t p hints e use owner visibility, Occurs registered file t p → p.node = .expr hints e →
    Uses file t p.state e use →
      DeclaredBy file use.kind use.name use.className owner visibility →
        Permitted file t.currentClass owner visibility

/-- A use that the checker does not compare with the visibility of the member: one in a guard or
on a way on which the tables are not consulted, one of a private member through a class that
inherits it, and one whose key does not stand for the member alone. -/
inductive Bypasses (builtins : String → Option Signature) (file : SourceFile) (p : Place)
    (use : Use) (owner : String) (visibility : Visibility) : Prop
  | guarded : p.scope.inGuard = true → Bypasses builtins file p use owner visibility
  | unchecked : use.checked = false → Bypasses builtins file p use owner visibility
  | inherited : visibility = .priv → use.className ≠ owner →
      Bypasses builtins file p use owner visibility
  | endless : ¬ Grounded file use.className → Bypasses builtins file p use owner visibility
  | shared {shown : Option Visibility} :
      Entered builtins file use.kind (use.kind.key use.className use.name) shown →
        shown ≠ some visibility → Bypasses builtins file p use owner visibility

/-- Bodies are checked against the registered tables of members. -/
structure SameMembers (t t' : Tables) : Prop where
  fields : t'.fieldVisibility = t.fieldVisibility
  methods : t'.methodVisibility = t.methodVisibility
  parents : t'.classParents = t.classParents

theorem sameMembers_body {t : Tables} {decls : List Decl} :
    ∀ body ∈ bodies t decls, SameMembers t body.tables := by
  induction decls generalizing t with
  | nil =>
      intro body member
      contradiction
  | cons decl decls ih =>
      intro body member
      rcases List.mem_append.mp member with member | member
      · cases decl with
        | function f =>
            rw [List.mem_singleton.mp member]
            exact ⟨rfl, rfl, rfl⟩
        | class_ c =>
            rcases List.mem_map.mp member with ⟨method, -, rfl⟩
            exact ⟨rfl, rfl, rfl⟩
        | _ => contradiction
      · have same := ih body member
        cases decl with
        | class_ c => exact ⟨same.fields, same.methods, same.parents⟩
        | _ => exact same

section Checked

variable {t : Tables} {s : CheckState}

theorem visible_of_accepts {className member : String} {visibility : Visibility}
    (accepts : Accepts (checkMemberVisibility t className member visibility) s) :
    visible t className visibility = true :=
  (accepts_require.mp accepts).1

theorem visible_of_fieldAccess {obj : Expr} {field : Ident} {className : String}
    {args : List ValueType} {visibility : Visibility}
    (accepts : Accepts (inferType t (.fieldAccess obj field)) s)
    (type : ((inferType t obj).run s).1 = .named className args)
    (shown : t.fieldVisibility (fieldKey className field) = some visibility) :
    visible t className visibility = true := by
  rw [inferType] at accepts
  have found := (accepts_bind.mp accepts).2
  rw [type, fieldType] at found
  have consulted := (accepts_bind.mp found).1
  rw [checkFieldVisibility, ← fieldKey, shown] at consulted
  exact visible_of_accepts consulted

theorem visible_of_methodCall {obj : Expr} {method : Ident} {args : List Expr}
    {visibility : Visibility} (accepts : Accepts (inferType t (.methodCall obj method args)) s)
    (dynamic : staticTarget t s obj method = .none)
    (known : (((inferType t obj).run s).1 == .any) = false)
    (plain : isFnVariable ((inferType t obj).run s).2
      (fieldKey ((inferType t obj).run s).1.toText method) = false)
    (shown : t.methodVisibility (methodSymbol ((inferType t obj).run s).1.toText method) =
      some visibility) :
    visible t ((inferType t obj).run s).1.toText visibility = true := by
  rw [inferType] at accepts
  have call := (accepts_bind.mp accepts).2
  simp only [run_state, dynamic] at call
  have called := (accepts_bind.mp call).2
  rw [checkMethodCall] at called
  have tested := (accepts_bind.mp called).2
  rw [fieldKey] at plain
  simp only [run_state, known, plain, Bool.or_self, Bool.false_eq_true, ↓reduceIte] at tested
  have consulted := (accepts_bind.mp tested).1
  rw [checkMethodVisibility, ← methodSymbol, shown] at consulted
  exact visible_of_accepts consulted

end Checked

theorem extends_of_extendsWithin {file : SourceFile} {classParents : List (String × String)}
    (parents : ∀ child parent, (child, parent) ∈ classParents → Extends file child parent)
    {base : String} (bound : Nat) {current : String}
    (walked : extendsWithin classParents base bound current = true) :
    Relation.ReflTransGen (Extends file) current base := by
  induction bound generalizing current with
  | zero => contradiction
  | succ bound ih =>
      rw [extendsWithin] at walked
      cases found : classParents.lookup current with
      | none =>
          rw [found] at walked
          contradiction
      | some parent =>
          have first := parents current parent (Entries.mem_of_lookup found)
          simp only [found, Bool.or_eq_true, decide_eq_true_eq] at walked
          rcases walked with rfl | later
          · exact .single first
          · exact .head first (ih later)

section Permission

variable {builtins : String → Option Signature} {file : SourceFile} {orders : Orders file}
  {processing : Processing file} {t : Tables} {s : CheckState}

theorem permitted_of_visible {kind : MemberKind} {name : Ident} {className owner : String}
    {visibility : Visibility}
    (same : SameMembers (register builtins file orders processing).tables t)
    (declared : DeclaredBy file kind name className owner visibility)
    (direct : visibility = .priv → className = owner) (shown : visible t className visibility = true) :
    Permitted file t.currentClass owner visibility := by
  cases visibility with
  | pub => trivial
  | package => trivial
  | priv =>
      rw [← direct rfl]
      exact eq_of_beq shown
  | prot =>
      rw [visible, Option.any_eq_true] at shown
      rcases shown with ⟨current, inside, subclass⟩
      refine ⟨current, inside, ?_⟩
      rw [isSubclassOrEqual, Bool.or_eq_true, decide_eq_true_eq, same.parents] at subclass
      rcases subclass with rfl | walked
      · exact declared.extends_
      · have below := extends_of_extendsWithin
          (fun _ _ listed => extends_of_classParents orders processing listed) _ walked
        exact below.trans declared.extends_

theorem bypasses_or_permitted {p : Place} {hints : List ValueType} {e : Expr} {use : Use}
    {owner : String} {visibility : Visibility}
    (same : SameMembers (register builtins file orders processing).tables t)
    (met : p.scope.inGuard = false → Met t p) (node : p.node = .expr hints e)
    (uses : Uses file t p.state e use)
    (declared : DeclaredBy file use.kind use.name use.className owner visibility) :
    Bypasses builtins file p use owner visibility ∨
      Permitted file t.currentClass owner visibility := by
  by_cases bypasses : Bypasses builtins file p use owner visibility
  · exact .inl bypasses
  · apply Or.inr
    have outside : p.scope.inGuard = false :=
      Bool.eq_false_iff.mpr fun guarded => bypasses (.guarded guarded)
    have grounded : Grounded file use.className :=
      Classical.byContradiction fun endless => bypasses (.endless endless)
    have direct : visibility = .priv → use.className = owner := fun priv =>
      Classical.byContradiction fun apart => bypasses (.inherited priv apart)
    have alone : ∀ shown, Entered builtins file use.kind
        (use.kind.key use.className use.name) shown → shown = some visibility := fun _ entered =>
      Classical.byContradiction fun other => bypasses (.shared entered other)
    have shown := visibility_of_declaredBy orders processing grounded declared alone
    have accepts := (met outside).accepts
    rw [node] at accepts
    apply permitted_of_visible same declared direct
    cases uses with
    | field type => exact visible_of_fieldAccess accepts type (same.fields ▸ shown)
    | method dynamic known plain =>
        exact visible_of_methodCall accepts dynamic known plain (same.methods ▸ shown)
    | called | static | path | literal | super | sibling | symbol | value =>
        exact absurd (.unchecked rfl) bypasses

end Permission

/-- `class Vault { private code: Int64; }`. -/
def vault : ClassDecl where
  name := "Vault"
  typeParams := []
  extends_ := none
  implements := []
  fields := [⟨"code", .int64, .priv, true, none, []⟩]
  methods := []
  doc := none
  annotations := []

/-- The class, and `fn main() -> Nothing { Vault { code: 1 } }`. -/
def vaultFile : SourceFile :=
  ⟨[.class_ vault, .function (mainFunction [] .nothing
    [.expr (.structLiteral "Vault" [("code", .literal (.integer 1))])])]⟩

def vaultOrders : Orders vaultFile where
  extendsOrder := []
  interfaceOrder := []
  extends_nodup := List.nodup_nil
  mem_extends _ := iff_of_false List.not_mem_nil Bool.false_ne_true
  interface_nodup := List.nodup_nil
  mem_interface _ := iff_of_false List.not_mem_nil Bool.false_ne_true

def vaultProcessing : Processing vaultFile where
  order := [vault]
  nodup := List.nodup_singleton _
  classes := by
    intro c member
    rw [List.mem_singleton.mp member]
    rfl
  parentsFirst := by
    intro before c after parent split extends_
    have member : c ∈ [vault] := by rw [split]; exact List.mem_append_right _ List.mem_cons_self
    rw [List.mem_singleton.mp member] at extends_
    contradiction
  complete := by
    intro name c found _
    have listed := (mem_of_classMap found).1
    exact listed

theorem accepted_vault :
    accepted (register (fun _ => none) vaultFile vaultOrders vaultProcessing) [] vaultFile := by
  have body : ∀ t : Tables, functionBody t (mainFunction [] .nothing
      [.expr (.structLiteral "Vault" [("code", .literal (.integer 1))])]) =
        ⟨{ t with typeParamScope := [] }, [], .nothing, false,
          .block [.expr (.structLiteral "Vault" [("code", .literal (.integer 1))])]⟩ := by
    intro t
    simp only [functionBody, mainFunction, resolveType_nothing]
    rfl
  have split : accepted (register (fun _ => none) vaultFile vaultOrders vaultProcessing) []
      vaultFile ↔ ((checkBody (functionBody (afterDecl
        (register (fun _ => none) vaultFile vaultOrders vaultProcessing).tables (.class_ vault))
          (mainFunction [] .nothing
            [.expr (.structLiteral "Vault" [("code", .literal (.integer 1))])]))).run
        (register (fun _ => none) vaultFile vaultOrders vaultProcessing).state).2.errors = [] :=
    Iff.rfl
  rw [split, body]
  decide

end Tinox.Check
