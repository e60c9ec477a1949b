import Mathlib.Algebra.Order.Ring.Nat
import Tinox.Check.Places

/-!
# Parts are smaller

The parts of a place are nodes of its own syntax tree, so that facts about
places can be shown from the leaves of a tree upwards.
-/

namespace Tinox.Check

open Tinox.Syntax Check CheckState
open Node (plain)

variable {t : Tables} {scope : Scope} {s : CheckState}

/-- The size of a node's tree. -/
noncomputable def Node.size : Node → Nat
  | .expr _ e => sizeOf e
  | .stmt body => sizeOf body

/-- Nodes below a bound. -/
def Below (bound : Nat) (places : List Place) : Prop :=
  ∀ q ∈ places, q.node.size < bound

namespace Below

variable {bound : Nat}

theorem nil : Below bound [] := by
  intro q member
  contradiction

theorem cons {p : Place} {places : List Place} (first : p.node.size < bound)
    (rest : Below bound places) : Below bound (p :: places) := by
  intro q member
  rcases List.mem_cons.mp member with rfl | member
  · exact first
  · exact rest q member

theorem append {first second : List Place} (before : Below bound first)
    (after : Below bound second) : Below bound (first ++ second) := by
  intro q member
  rcases List.mem_append.mp member with member | member
  · exact before q member
  · exact after q member

theorem along {nodes : List Node} (small : ∀ node ∈ nodes, node.size < bound) :
    Below bound (along t scope s nodes) := by
  induction nodes generalizing s with
  | nil => exact nil
  | cons node nodes ih =>
      exact cons (small node List.mem_cons_self) (ih fun other member =>
        small other (List.mem_cons_of_mem node member))

theorem blockParts {stmts : List Stmt} (small : sizeOf stmts ≤ bound) :
    Below bound (blockParts t scope s stmts) := by
  induction stmts generalizing scope s with
  | nil => exact nil
  | cons body stmts ih =>
      rw [List.cons.sizeOf_spec] at small
      exact cons (show sizeOf body < bound by omega) (ih (by omega))

theorem caseParts {scrutinee : ValueType} {cases : List MatchCase} (small : sizeOf cases ≤ bound) :
    Below bound (caseParts t scope scrutinee s cases) := by
  induction cases generalizing s with
  | nil => exact nil
  | cons case cases ih =>
      cases case with
      | mk pattern guard body =>
          rw [List.cons.sizeOf_spec, MatchCase.mk.sizeOf_spec] at small
          refine append ?_ (cons (show sizeOf body < bound by omega) (ih (by omega)))
          intro q member
          rcases List.mem_map.mp member with ⟨inner, present, rfl⟩
          rw [Option.mem_toList.mp present, Option.some.sizeOf_spec] at small
          exact show sizeOf inner < bound by omega

theorem catchBodyParts {catches : List CatchClause} (small : sizeOf catches ≤ bound) :
    Below bound (catchBodyParts t scope s catches) := by
  induction catches generalizing s with
  | nil => exact nil
  | cons clause catches ih =>
      cases clause with
      | mk param type body =>
          rw [List.cons.sizeOf_spec, CatchClause.mk.sizeOf_spec] at small
          exact cons (show sizeOf body < bound by omega) (ih (by omega))

theorem catchParts {catches : List CatchClause} (small : sizeOf catches ≤ bound) :
    Below bound (catchParts t scope s catches) := by
  induction catches generalizing s with
  | nil => exact nil
  | cons clause catches ih =>
      cases clause with
      | mk param type body =>
          rw [List.cons.sizeOf_spec, CatchClause.mk.sizeOf_spec] at small
          exact cons (show sizeOf body < bound by omega) (ih (by omega))

theorem armParts {arms : List SelectArm} (small : sizeOf arms ≤ bound) :
    Below bound (armParts t scope s arms) := by
  induction arms generalizing s with
  | nil => exact nil
  | cons arm arms ih =>
      cases arm with
      | mk source var body =>
          rw [List.cons.sizeOf_spec, SelectArm.mk.sizeOf_spec] at small
          exact cons (show sizeOf source < bound by omega)
            (cons (show sizeOf body < bound by omega) (ih (by omega)))

end Below

/-- Nodes that are expressions of a list. -/
def Among (exprs : List Expr) (nodes : List Node) : Prop :=
  ∀ node ∈ nodes, ∃ hints, ∃ e ∈ exprs, node = .expr hints e

theorem among_map (exprs : List Expr) : Among exprs (exprs.map plain) := by
  intro node member
  rcases List.mem_map.mp member with ⟨e, present, rfl⟩
  exact ⟨[], e, present, rfl⟩

theorem Among.mono {exprs others : List Expr} {nodes : List Node} (among : Among exprs nodes)
    (subset : ∀ e ∈ exprs, e ∈ others) : Among others nodes := by
  intro node member
  rcases among node member with ⟨hints, e, present, rfl⟩
  exact ⟨hints, e, subset e present, rfl⟩

theorem Among.append {exprs : List Expr} {first second : List Node} (before : Among exprs first)
    (after : Among exprs second) : Among exprs (first ++ second) := by
  intro node member
  rcases List.mem_append.mp member with member | member
  · exact before node member
  · exact after node member

theorem among_hintedNodes (hints : Nat → Option (List ValueType)) (index : Nat)
    (args : List Expr) : Among args (hintedNodes hints index args) := by
  induction args generalizing index with
  | nil =>
      intro node member
      contradiction
  | cons arg args ih =>
      refine Among.append ?_ ((ih (index + 1)).mono fun e => List.mem_cons_of_mem arg)
      intro node member
      rw [hintedNode.eq_def] at member
      split at member
      · rw [List.mem_singleton.mp member]
        exact ⟨_, _, List.mem_cons_self, rfl⟩
      · contradiction

theorem mem_of_mem_unknown {known : List (Option ValueType)} {args : List Expr} {e : Expr}
    (member : e ∈ unknown known args) : e ∈ args := by
  induction args generalizing known with
  | nil => contradiction
  | cons arg args ih =>
      rw [unknown] at member
      split at member
      · exact List.mem_cons_of_mem arg (ih member)
      · rcases List.mem_cons.mp member with rfl | member
        · exact List.mem_cons_self
        · exact List.mem_cons_of_mem arg (ih member)

theorem among_methodNodes (objType : ValueType) (method : Ident) (args : List Expr) :
    Among args (methodNodes t s objType method args) := by
  rw [methodNodes]
  split
  · exact among_map args
  · refine Among.append ((among_map _).mono fun e member => ?_)
      ((among_hintedNodes _ 0 args).append ((among_map _).mono fun e => mem_of_mem_unknown))
    split at member
    · exact List.mem_of_mem_take member
    · contradiction

theorem Among.smaller {exprs : List Expr} {nodes : List Node} {bound : Nat}
    (among : Among exprs nodes) (small : sizeOf exprs ≤ bound) :
    ∀ node ∈ nodes, ∃ hints e, node = .expr hints e ∧ sizeOf e < bound := by
  intro node member
  rcases among node member with ⟨hints, e, present, rfl⟩
  exact ⟨hints, e, rfl, Nat.lt_of_lt_of_le (List.sizeOf_lt_of_mem present) small⟩

theorem smaller_operands (e : Expr) :
    ∀ node ∈ operands t s e, ∃ hints e', node = .expr hints e' ∧ sizeOf e' < sizeOf e := by
  intro node member
  cases e with
  | arrayLiteral elems | tuple elems => exact (among_map elems).smaller (by simp) node member
  | superCall _ args | new _ _ args | enumValue _ _ _ args =>
      exact (among_map args).smaller (by simp) node member
  | mapLiteral entries =>
      rcases List.mem_flatMap.mp member with ⟨entry, present, inside⟩
      have small := List.sizeOf_lt_of_mem present
      rcases entry with ⟨key, value⟩
      simp only [List.mem_cons, List.not_mem_nil, or_false] at inside
      rw [Prod.mk.sizeOf_spec] at small
      rw [Expr.mapLiteral.sizeOf_spec]
      rcases inside with rfl | rfl
      · exact ⟨[], key, rfl, by omega⟩
      · exact ⟨[], value, rfl, by omega⟩
  | structLiteral name fields =>
      rcases List.mem_map.mp member with ⟨field, present, rfl⟩
      have small := List.sizeOf_lt_of_mem present
      rcases field with ⟨fieldName, value⟩
      rw [Prod.mk.sizeOf_spec] at small
      rw [Expr.structLiteral.sizeOf_spec]
      exact ⟨[], value, rfl, by omega⟩
  | binary _ first second | index first second | assign first second
  | compoundAssign _ first second | send first second | range first second _ =>
      simp only [operands, List.mem_cons, List.not_mem_nil, or_false] at member
      rcases member with rfl | rfl
      · exact ⟨[], first, rfl, by simp; omega⟩
      · exact ⟨[], second, rfl, by simp <;> omega⟩
  | unary _ operand | fieldAccess operand _ | throwExpr operand | spawn operand | await operand
  | recv operand | cast operand _ | is operand _ | tupleIndex operand _ =>
      rw [operands, List.mem_singleton] at member
      exact ⟨[], operand, member, by simp <;> omega⟩
  | call func args =>
      rw [operands] at member
      split at member
      · exact (among_map args).smaller (by simp) node member
      · rcases List.mem_cons.mp member with rfl | member
        · exact ⟨[], func, rfl, by simp; omega⟩
        · exact (among_map args).smaller (by simp) node member
  | methodCall obj method args =>
      rw [operands] at member
      split at member
      · rcases List.mem_cons.mp member with rfl | member
        · exact ⟨[], obj, rfl, by simp; omega⟩
        · exact (among_methodNodes _ method args).smaller (by simp) node member
      · exact (among_map args).smaller (by simp) node member
  | ifExpr cond thenBranch elseBranch =>
      simp only [operands, List.mem_cons] at member
      rcases member with rfl | rfl | member
      · exact ⟨[], cond, rfl, by simp; omega⟩
      · exact ⟨[], thenBranch, rfl, by simp; omega⟩
      · rcases List.mem_map.mp member with ⟨inner, present, rfl⟩
        rw [Option.mem_toList.mp present]
        exact ⟨[], inner, rfl, by simp; omega⟩
  | returnExpr value =>
      rcases List.mem_map.mp member with ⟨inner, present, rfl⟩
      rw [Option.mem_toList.mp present]
      exact ⟨[], inner, rfl, by simp; omega⟩
  | _ => contradiction

theorem small_operands (e : Expr) : ∀ node ∈ operands t s e, node.size < sizeOf e := by
  intro node member
  rcases smaller_operands e node member with ⟨hints, e', rfl, smaller⟩
  exact smaller

theorem small_stmtOperands (body : Stmt) : ∀ node ∈ stmtOperands body, node.size < sizeOf body := by
  intro node member
  cases body with
  | letStmt _ _ value | varStmt _ _ value | returnStmt value =>
      rcases List.mem_map.mp member with ⟨inner, present, rfl⟩
      rw [Option.mem_toList.mp present]
      simp [Node.size]
      omega
  | assignment target value =>
      simp only [stmtOperands, List.mem_cons, List.not_mem_nil, or_false] at member
      rcases member with rfl | rfl <;> simp [Node.size] <;> omega
  | throwStmt value | expr value | deferStmt value =>
      rw [stmtOperands, List.mem_singleton] at member
      rw [member]
      simp [Node.size]
  | ifStmt cond thenBranch elseBranch =>
      simp only [stmtOperands, List.mem_cons] at member
      rcases member with rfl | rfl | member
      · simp [Node.size]
        omega
      · simp [Node.size]
        omega
      · rcases List.mem_map.mp member with ⟨inner, present, rfl⟩
        rw [Option.mem_toList.mp present]
        simp [Node.size]
        omega
  | _ => contradiction

theorem below_toList_expr {value : Option Expr} {bound : Nat} (small : sizeOf value ≤ bound) :
    ∀ node ∈ value.toList.map plain, node.size < bound := by
  intro node member
  rcases List.mem_map.mp member with ⟨inner, present, rfl⟩
  rw [Option.mem_toList.mp present, Option.some.sizeOf_spec] at small
  exact show sizeOf inner < bound by omega

theorem below_toList_stmt {body : Option Stmt} {bound : Nat} (small : sizeOf body ≤ bound) :
    ∀ node ∈ body.toList.map Node.stmt, node.size < bound := by
  intro node member
  rcases List.mem_map.mp member with ⟨inner, present, rfl⟩
  rw [Option.mem_toList.mp present, Option.some.sizeOf_spec] at small
  exact show sizeOf inner < bound by omega

theorem below_exprParts (hints : List ValueType) (e : Expr) :
    Below (sizeOf e) (exprParts t scope s hints e) := by
  cases e with
  | lambda params retType body | loopExpr body => exact Below.cons (by simp [Node.size]) Below.nil
  | block stmts => exact Below.blockParts (by simp)
  | whileExpr cond body | forExpr var iter body =>
      exact Below.cons (by simp [Node.size]; omega)
        (Below.cons (by simp [Node.size]) Below.nil)
  | matchExpr expr cases =>
      exact Below.cons (by simp [Node.size]; omega) (Below.caseParts (by simp))
  | tryExpr body catches finally_ =>
      exact Below.cons (by simp [Node.size]; omega)
        (Below.append (Below.catchBodyParts (by simp; omega))
          (Below.along (below_toList_expr (by simp))))
  | _ => exact Below.along (small_operands _)

theorem below_stmtParts (body : Stmt) : Below (sizeOf body) (stmtParts t scope s body) := by
  cases body with
  | block stmts => exact Below.blockParts (by simp)
  | whileStmt cond body | forStmt var iter body =>
      exact Below.cons (by simp [Node.size]; omega)
        (Below.cons (by simp [loopPart, Node.size]) Below.nil)
  | loop body => exact Below.cons (by simp [loopPart, Node.size]) Below.nil
  | forC init cond update body =>
      refine Below.append (Below.append (Below.along (below_toList_stmt (by simp; omega)))
        (Below.along ?_)) (Below.cons (by simp [loopPart, Node.size]) Below.nil)
      intro node member
      rcases List.mem_append.mp member with member | member
      all_goals exact below_toList_expr (by simp; omega) node member
  | tryStmt body catches finally_ =>
      exact Below.cons (by simp [Node.size]; omega)
        (Below.append (Below.catchParts (by simp; omega))
          (Below.along (below_toList_stmt (by simp))))
  | select arms default =>
      exact Below.append (Below.armParts (by simp; omega))
        (Below.along (below_toList_stmt (by simp)))
  | _ => exact Below.along (small_stmtOperands _)

theorem size_parts {p q : Place} (member : q ∈ p.parts t) : q.node.size < p.node.size := by
  rcases p with ⟨node, scope, s⟩
  cases node with
  | expr hints e => exact below_exprParts hints e q member
  | stmt body => exact below_stmtParts body q member

end Tinox.Check
