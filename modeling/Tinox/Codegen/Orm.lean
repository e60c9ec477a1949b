import Mathlib.Data.Rat.Defs
import Mathlib.Algebra.Order.Ring.Rat
import Mathlib.Data.String.Basic
import Tinox.Codegen.Types
import Tinox.Sql.Conditions

/-!
# Queries from lambdas

A chain `DB.of(T).filter(..).limit(n).offset(m)` is compiled to one query: each
filter lambda is translated to a condition with numbered parameters.  This file
compares the rows of the query with the rows for which the lambdas are true.
-/

namespace Tinox.Codegen.Orm

open Tinox.Syntax Sql

/-- A field of an entity and its column (`EntityFieldEntry`). -/
structure EntityField where
  fieldName : Ident
  columnName : Ident

/-- A class with `@Entity` (`EntityEntry`). -/
structure EntityEntry where
  className : Ident
  tableName : Ident
  fields : List EntityField

/-- `OrmChain`. -/
structure OrmChain where
  entityClass : Ident
  filters : List (Ident × Expr)
  orderBy : List (Ident × Bool)
  limit : Option Int
  offsetVal : Option Int

/-- The parameter and the body of a lambda. -/
def lambdaOf : Option Expr → Option (Ident × Expr)
  | some (.lambda params _ body) => some ((params.head?.map Param.name).getD "", body)
  | _ => none

/-- A number that is written out. -/
def literalOf : Option Expr → Option Int
  | some (.literal (.integer n)) => some n
  | _ => none

/-- The field in the body of a lambda `x => x.field`. -/
def orderField : Option Expr → Option Ident
  | some (.lambda _ _ (.fieldAccess _ field)) => some field
  | _ => none

/-- The class in `DB.of(T)`. -/
def classOf : Expr → List Expr → Option Ident
  | .ident db, .ident className :: _ => if db = "DB" then some className else none
  | _, _ => none

/-- `unwind_orm_chain`. -/
def unwindOrmChain : Expr → OrmChain → Option OrmChain
  | .methodCall obj method args, chain =>
      if method = "filter" then
        unwindOrmChain obj { chain with filters := chain.filters ++ (lambdaOf args.head?).toList }
      else if method = "orderBy" then
        unwindOrmChain obj
          { chain with orderBy := chain.orderBy ++ (orderField args.head?).toList.map (·, false) }
      else if method = "orderByDesc" then
        unwindOrmChain obj
          { chain with orderBy := chain.orderBy ++ (orderField args.head?).toList.map (·, true) }
      else if method = "limit" then
        unwindOrmChain obj { chain with limit := (literalOf args.head?).or chain.limit }
      else if method = "offset" then
        unwindOrmChain obj { chain with offsetVal := (literalOf args.head?).or chain.offsetVal }
      else if method = "of" then
        (classOf obj args).map fun className => { chain with entityClass := className }
      else none
  | _, _ => none

/-- `try_extract_orm_chain`. -/
def tryExtractOrmChain (expr : Expr) : Option OrmChain :=
  (unwindOrmChain expr ⟨"", [], [], none, none⟩).filter fun chain => chain.entityClass ≠ ""

/-! ## Conditions -/

/-- Comparisons. -/
inductive SqlOp where
  | eq | ne | lt | le | gt | ge
  deriving DecidableEq

/-- A test on a column with a numbered parameter. -/
inductive ColumnTest where
  | compare (column : Ident) (op : SqlOp) (number : Nat)
  | like (column : Ident) (number : Nat)

/-- The code of a parameter. -/
inductive ParamCode where
  | text (value : String)
  | number (value : Int)
  /-- An expression that is evaluated before the query, with its LLVM type. -/
  | expr (expr : Expr) (type : LlvmType)

/-- LLVM accepts the code: other values go to `tinox_int_to_param` as `i64`. -/
def ParamCode.wellTyped : ParamCode → Bool
  | .text _ | .number _ => true
  | .expr _ type => type = .bytes || type = .i64

/-- `orm_extract_field`. -/
def ormExtractField (fields : List EntityField) (param : Ident) : Expr → Option Ident
  | .fieldAccess (.ident name) field =>
      if name = param then (fields.find? (·.fieldName = field)).map (·.columnName) else none
  | _ => none

/-- The comparison for an operator. -/
def sqlOp : BinaryOp → Option SqlOp
  | .eq => some .eq
  | .ne => some .ne
  | .lt => some .lt
  | .le => some .le
  | .gt => some .gt
  | .ge => some .ge
  | _ => none

/-- The comparison with its sides exchanged. -/
def SqlOp.flipped : SqlOp → SqlOp
  | .lt => .gt
  | .le => .ge
  | .gt => .lt
  | .ge => .le
  | op => op

/-- The pattern for a method on texts. -/
def likePattern (method : Ident) (s : String) : Option String :=
  if method = "startsWith" then some (s ++ "%")
  else if method = "endsWith" then some ("%" ++ s)
  else if method = "contains" then some ("%" ++ s ++ "%")
  else none

/-- Translated conditions, and the code of all parameters that was emitted. -/
structure Emission where
  emitted : List ParamCode
  result : Option (List (Token ColumnTest) × List ParamCode)

section Translation

variable (genExpr : Expr → Option LlvmType) (fields : List EntityField) (param : Ident)

/-- `emit_orm_param_value`; the type of other expressions is that of `gen_expr`. -/
def emitOrmParamValue : Expr → Option ParamCode
  | .literal (.string s) => some (.text s)
  | .literal (.integer n) => some (.number n)
  | .literal (.bool b) => some (.number (if b then 1 else 0))
  | expr => (genExpr expr).map (.expr expr)

/-- A test on a column with the value of an expression. -/
def emitTest (test : ColumnTest) (operand : Expr) : Emission :=
  match emitOrmParamValue genExpr operand with
  | some code => ⟨[code], some ([.test test], [code])⟩
  | none => ⟨[], none⟩

/-- A translated condition in parentheses. -/
def parens (tokens : List (Token ColumnTest)) : List (Token ColumnTest) :=
  .lparen :: (tokens ++ [.rparen])

/-- Two translated conditions with AND or OR between them. -/
def Emission.join (connective : Token ColumnTest) (left : Emission) (right : Nat → Emission) :
    Emission :=
  match left.result with
  | none => left
  | some (leftSql, leftParams) =>
      let right := right leftParams.length
      ⟨left.emitted ++ right.emitted, right.result.map fun (rightSql, rightParams) =>
        (parens leftSql ++ connective :: parens rightSql, leftParams ++ rightParams)⟩

/-- `lambda_to_sql_and_params`. -/
def lambdaToSqlAndParams : Expr → Nat → Emission
  | .binary .and lhs rhs, offset =>
      (lambdaToSqlAndParams lhs offset).join .and fun used =>
        lambdaToSqlAndParams rhs (offset + used)
  | .binary .or lhs rhs, offset =>
      (lambdaToSqlAndParams lhs offset).join .or fun used =>
        lambdaToSqlAndParams rhs (offset + used)
  | .binary op lhs rhs, offset =>
      match sqlOp op with
      | none => ⟨[], none⟩
      | some op =>
          match ormExtractField fields param lhs, ormExtractField fields param rhs with
          | some column, _ => emitTest genExpr (.compare column op (offset + 1)) rhs
          | none, some column => emitTest genExpr (.compare column op.flipped (offset + 1)) lhs
          | none, none => ⟨[], none⟩
  | .unary .not operand, offset =>
      let inner := lambdaToSqlAndParams operand offset
      ⟨inner.emitted, inner.result.map fun (sql, params) => (.not :: parens sql, params)⟩
  | .methodCall obj method [.literal (.string s)], offset =>
      match ormExtractField fields param obj, likePattern method s with
      | some column, some pattern =>
          ⟨[.text pattern], some ([.test (.like column (offset + 1))], [.text pattern])⟩
      | _, _ => ⟨[], none⟩
  | _, _ => ⟨[], none⟩

end Translation

/-- A query: the conditions between which the text has AND, and the rest of it. -/
structure Query where
  columns : List Ident
  table : Ident
  conditions : List (List (Token ColumnTest))
  orderBy : List (Ident × Bool)
  limit : Option Int
  offset : Option Int
  params : List ParamCode

/-- The conditions of all filters, and the code of all parameters. -/
def genFilters (genExpr : Expr → Option LlvmType) (fields : List EntityField) :
    List (Ident × Expr) → Nat →
      List (List (Token ColumnTest)) × List ParamCode × List ParamCode
  | [], _ => ([], [], [])
  | (param, body) :: filters, offset =>
      let emission := lambdaToSqlAndParams genExpr fields param body offset
      match emission.result with
      | some (sql, params) =>
          let (conditions, rest, emitted) :=
            genFilters genExpr fields filters (offset + params.length)
          (sql :: conditions, params ++ rest, emission.emitted ++ emitted)
      | none =>
          let (conditions, rest, emitted) := genFilters genExpr fields filters offset
          (conditions, rest, emission.emitted ++ emitted)

/-- `gen_orm_query`, with the code of all parameters. -/
def genOrmQuery (genExpr : Expr → Option LlvmType) (entity : EntityEntry) (chain : OrmChain) :
    Query × List ParamCode :=
  let (conditions, params, emitted) := genFilters genExpr entity.fields chain.filters 0
  ({ columns := entity.fields.map (·.columnName)
     table := entity.tableName
     conditions
     orderBy := chain.orderBy.map fun (field, descending) =>
       (((entity.fields.find? fun f => f.fieldName = field || f.columnName = field).map
         (·.columnName)).getD field, descending)
     limit := chain.limit
     offset := chain.offsetVal
     params }, emitted)

/-- The query of a chain, if the chain is compiled to one and LLVM accepts the
code of its parameters. -/
def compileChain (genExpr : Expr → Option LlvmType) (entities : List EntityEntry) (expr : Expr) :
    Option Query :=
  match tryExtractOrmChain expr with
  | none => none
  | some chain =>
      match entities.find? (·.className = chain.entityClass) with
      | none => none
      | some entity =>
          let (query, emitted) := genOrmQuery genExpr entity chain
          if emitted.all ParamCode.wellTyped then some query else none

/-- Values of columns and expressions. -/
inductive Cell where
  | number (value : ℚ)
  | text (value : String)
  | bool (value : Bool)
  | null
  deriving Inhabited

/-- A row, by columns. -/
abbrev Row := Ident → Cell

/-- Comparison of values. -/
def SqlOp.test {α : Type} [LinearOrder α] (a : α) : SqlOp → α → Bool
  | .eq, b => a = b
  | .ne, b => a ≠ b
  | .lt, b => a < b
  | .le, b => a ≤ b
  | .gt, b => b < a
  | .ge, b => b ≤ a

/-- The text of a parameter: that of a number is its decimal text. -/
inductive ParamText where
  | text (value : String)
  | number (value : Int)
  | null

/-- Comparison of a column with a parameter, which is read at the column's type. -/
def compareColumn (op : SqlOp) : Cell → ParamText → Bool
  | .number a, .number b => op.test a (b : ℚ)
  | .text a, .text b => op.test a b
  | .text a, .number b => op.test a (toString b)
  | .bool a, .number b => op.test a (decide (b ≠ 0))
  | _, _ => false

/-- A test on a row, parameters being numbered from one. -/
def testTrue (params : List ParamText) (row : Row) : ColumnTest → Bool
  | .compare column op number =>
      match params[number - 1]? with
      | some param => compareColumn op (row column) param
      | none => false
  | .like column number =>
      match params[number - 1]?, row column with
      | some (.text pattern), .text value => like pattern.toList value.toList
      | _, _ => false

/-- The condition of a query on a row; `none` for a syntax error. -/
def Query.whereTrue (query : Query) (params : List ParamText) (row : Row) : Option Bool :=
  if query.conditions.isEmpty then some true
  else evaluate (testTrue params row) (joinAnd query.conditions)

/-- Rows from an offset on, up to a limit. -/
def cut (limit offset : Option Int) (rows : List Row) : List Row :=
  let rows := rows.drop ((offset.map Int.toNat).getD 0)
  match limit with
  | some n => rows.take n.toNat
  | none => rows

/-- The rows of a query on a table. -/
def Query.rows (sort : List (Ident × Bool) → List Row → List Row) (query : Query)
    (params : List ParamText) (table : List Row) : List Row :=
  let selected := table.filter fun row => query.whereTrue params row = some true
  cut query.limit query.offset
    (if query.orderBy.isEmpty then selected else sort query.orderBy selected)

/-- The database reads the query: names are identifiers to it, and the condition
has no syntax error. -/
def Query.Readable (isName : Ident → Bool) (query : Query) : Prop :=
  isName query.table = true ∧ (∀ column ∈ query.columns, isName column = true) ∧
    ∀ params row, (query.whereTrue params row).isSome = true

/-! ## What a chain means -/

/-- The values of expressions: outside a lambda, or with its parameter bound to a row. -/
abbrev Eval := Option (Ident × Row) → Expr → Cell

/-- The text of a parameter at run time. -/
def ParamCode.value (eval : Eval) : ParamCode → ParamText
  | .text s => .text s
  | .number n => .number n
  | .expr e type =>
      if type = .bytes then
        match eval none e with
        | .text s => .text s
        | _ => .null
      else
        match eval none e with
        | .number n => .number n.num
        | _ => .number 0

/-- Comparison of two values. -/
def compareCells (op : SqlOp) : Cell → Cell → Bool
  | .number a, .number b => op.test a b
  | .text a, .text b => op.test a b
  | .bool a, .bool b => op.test a b
  | _, _ => false

/-- A method on texts. -/
def textMethod (method : Ident) (text s : String) : Option Bool :=
  if method = "startsWith" then some (s.toList <+: text.toList)
  else if method = "endsWith" then some (s.toList <:+ text.toList)
  else if method = "contains" then some (s.toList <:+: text.toList)
  else none

section Meaning

variable (eval : Eval) (fields : List EntityField) (param : Ident) (row : Row)

/-- The value of an expression in a lambda on a row. -/
def value : Expr → Cell
  | .literal (.string s) => .text s
  | .literal (.integer n) => .number n
  | .literal (.bool b) => .bool b
  | .literal .null => .null
  | expr =>
      match ormExtractField fields param expr with
      | some column => row column
      | none => eval (some (param, row)) expr

/-- A lambda body is true on a row. -/
def truth : Expr → Bool
  | .binary .and lhs rhs => truth lhs && truth rhs
  | .binary .or lhs rhs => truth lhs || truth rhs
  | .unary .not operand => !truth operand
  | .binary op lhs rhs =>
      match sqlOp op with
      | some op => compareCells op (value eval fields param row lhs) (value eval fields param row rhs)
      | none =>
          match eval (some (param, row)) (.binary op lhs rhs) with
          | .bool b => b
          | _ => false
  | .methodCall obj method [.literal (.string s)] =>
      match value eval fields param row obj with
      | .text text => (textMethod method text s).getD false
      | _ => false
  | expr =>
      match value eval fields param row expr with
      | .bool b => b
      | _ => false

end Meaning

/-- A chain of filters with at most one limit and one offset. -/
structure SourceChain where
  entityClass : Ident
  filters : List (Option Expr)
  limit : Option (Option Expr)
  offset : Option (Option Expr)

/-- Read a chain in the source. -/
def readChain : Expr → Option SourceChain
  | .methodCall obj method args =>
      if method = "filter" then
        (readChain obj).map fun c => { c with filters := args.head? :: c.filters }
      else if method = "limit" then
        (readChain obj).bind fun c =>
          if c.limit.isSome then none else some { c with limit := some args.head? }
      else if method = "offset" then
        (readChain obj).bind fun c =>
          if c.offset.isSome then none else some { c with offset := some args.head? }
      else if method = "of" then
        (classOf obj args).bind fun className =>
          if className = "" then none else some ⟨className, [], none, none⟩
      else none
  | _ => none

/-- A filter is true on a row.  A filter that is no lambda is called with the row. -/
def filterTrue (eval : Eval) (applies : Expr → Row → Bool) (fields : List EntityField) (row : Row) :
    Option Expr → Bool
  | none => true
  | some filter =>
      match lambdaOf (some filter) with
      | some (param, body) => truth eval fields param row body
      | none => applies filter row

/-- The number that a limit or an offset stands for. -/
def countOf (eval : Eval) : Option (Option Expr) → Option Int
  | some (some (.literal (.integer n))) => some n
  | some (some expr) =>
      match eval none expr with
      | .number n => some n.num
      | _ => none
  | _ => none

/-- The rows for which all filters are true, cut to the limit and the offset. -/
def SourceChain.rows (eval : Eval) (applies : Expr → Row → Bool) (fields : List EntityField)
    (chain : SourceChain) (table : List Row) : List Row :=
  cut (countOf eval chain.limit) (countOf eval chain.offset)
    (table.filter fun row => chain.filters.all (filterTrue eval applies fields row))

/-- Nothing of the chain is left out of the query. -/
def NothingLeftOut (chain : SourceChain) (query : Query) : Prop :=
  query.conditions.length = chain.filters.length ∧
    query.limit.isSome = chain.limit.isSome ∧ query.offset.isSome = chain.offset.isSome

/-- The query of the chain, if there is one, contains all of it and returns the
rows that the chain means. -/
def MeansLambdas (genExpr : Expr → Option LlvmType) (eval : Eval) (applies : Expr → Row → Bool)
    (isName : Ident → Bool) (sort : List (Ident × Bool) → List Row → List Row)
    (entities : List EntityEntry) (entity : EntityEntry) (chain : SourceChain) (expr : Expr)
    (table : List Row) : Prop :=
  ∀ query, compileChain genExpr entities expr = some query →
    NothingLeftOut chain query ∧ query.Readable isName ∧
      query.rows sort (query.params.map (ParamCode.value eval)) table =
        chain.rows eval applies entity.fields table

/-- The outermost operation of the body is `||`. -/
def TopOr : Expr → Prop
  | .binary .or _ _ => True
  | _ => False

section Conditions

variable (genExpr : Expr → Option LlvmType) (eval : Eval) (fields : List EntityField)
  (param : Ident) (row : Row)

/-- The body is built by `&&`, `||` and `!` from comparisons of a column with a
value that has code and from `startsWith`, `endsWith` and `contains` of a column
and a literal. -/
def Translates : Expr → Prop
  | .binary .and lhs rhs => Translates lhs ∧ Translates rhs
  | .binary .or lhs rhs => Translates lhs ∧ Translates rhs
  | .binary op lhs rhs =>
      (sqlOp op).isSome = true ∧
        match ormExtractField fields param lhs, ormExtractField fields param rhs with
        | some _, _ => (emitOrmParamValue genExpr rhs).isSome = true
        | none, some _ => (emitOrmParamValue genExpr lhs).isSome = true
        | none, none => False
  | .unary .not operand => Translates operand
  | .methodCall obj method [.literal (.string s)] =>
      (ormExtractField fields param obj).isSome = true ∧ (likePattern method s).isSome = true
  | _ => False

/-- The operand has a value of the column's kind, which does not depend on the
row: a literal, or an expression whose value outside the lambda is the same. -/
def OperandRight (cell : Cell) : Expr → Prop
  | .literal (.string _) => ∃ s, cell = .text s
  | .literal (.integer _) => ∃ q, cell = .number q
  | .literal (.bool _) => ∃ b, cell = .bool b
  | operand =>
      value eval fields param row operand = eval none operand ∧
        (genExpr operand = some .bytes → ∃ s t, eval none operand = .text s ∧ cell = .text t) ∧
        (genExpr operand = some .i64 →
          ∃ (n : Int) (q : ℚ), eval none operand = .number n ∧ cell = .number q)

/-- On the row, operands are right, and methods are called on a text with a
literal that has no wildcards. -/
def RowRight : Expr → Prop
  | .binary .and lhs rhs => RowRight lhs ∧ RowRight rhs
  | .binary .or lhs rhs => RowRight lhs ∧ RowRight rhs
  | .binary _ lhs rhs =>
      match ormExtractField fields param lhs, ormExtractField fields param rhs with
      | some column, _ => OperandRight genExpr eval fields param row (row column) rhs
      | none, some column => OperandRight genExpr eval fields param row (row column) lhs
      | none, none => True
  | .unary .not operand => RowRight operand
  | .methodCall obj _ [.literal (.string s)] =>
      Literal s.toList ∧
        ∀ column, ormExtractField fields param obj = some column → ∃ t, row column = .text t
  | _ => True

end Conditions

/-! ## Translated conditions -/

variable {genExpr : Expr → Option LlvmType} {eval : Eval} {fields : List EntityField}
  {param : Ident} {row : Row}

variable {expr body : Expr} {offset : Nat}

/-- A comparison with its sides exchanged is the flipped comparison. -/
theorem test_flipped {α : Type} [LinearOrder α] (op : SqlOp) (a b : α) :
    op.flipped.test a b = op.test b a := by
  cases op <;> simp [SqlOp.flipped, SqlOp.test, eq_comm]

theorem compareCells_flipped (op : SqlOp) (a b : Cell) :
    compareCells op.flipped a b = compareCells op b a := by
  cases a <;> cases b <;> simp [compareCells, test_flipped]

/-- The database compares with a parameter as the lambda compares with the operand. -/
theorem compareColumn_value {operand : Expr} {code : ParamCode} {cell : Cell} (op : SqlOp)
    (emitted : emitOrmParamValue genExpr operand = some code) (typed : code.wellTyped = true)
    (right : OperandRight genExpr eval fields param row cell operand) :
    compareColumn op cell (code.value eval) =
      compareCells op cell (value eval fields param row operand) := by
  have runtime : ∀ {operand : Expr}, (genExpr operand).map (ParamCode.expr operand) = some code →
      value eval fields param row operand = eval none operand →
      (genExpr operand = some .bytes → ∃ s t, eval none operand = .text s ∧ cell = .text t) →
      (genExpr operand = some .i64 →
        ∃ (n : Int) (q : ℚ), eval none operand = .number n ∧ cell = .number q) →
      compareColumn op cell (code.value eval) =
        compareCells op cell (value eval fields param row operand) := by
    intro operand emitted same texts numbers
    rcases Option.map_eq_some_iff.mp emitted with ⟨type, typedAs, rfl⟩
    simp only [ParamCode.wellTyped, Bool.or_eq_true, decide_eq_true_eq] at typed
    rw [same]
    rcases typed with rfl | rfl
    · rcases texts typedAs with ⟨s, t, isText, rfl⟩
      simp [ParamCode.value, isText, compareColumn, compareCells]
    · rcases numbers typedAs with ⟨n, q, isNumber, rfl⟩
      simp [ParamCode.value, isNumber, compareColumn, compareCells]
  unfold emitOrmParamValue at emitted
  split at emitted
  · injection emitted with emitted
    subst emitted
    rcases right with ⟨t, rfl⟩
    rfl
  · injection emitted with emitted
    subst emitted
    rcases right with ⟨q, rfl⟩
    rfl
  · next b =>
      injection emitted with emitted
      subst emitted
      rcases right with ⟨a, rfl⟩
      cases b <;> rfl
  · next notString notInteger notBool =>
      unfold OperandRight at right
      split at right
      · exact absurd rfl (notString _)
      · exact absurd rfl (notInteger _)
      · exact absurd rfl (notBool _)
      · exact runtime emitted right.1 right.2.1 right.2.2

theorem like_likePattern {method : Ident} {s pattern : String} (text : String)
    (plain : Literal s.toList) (translated : likePattern method s = some pattern) :
    like pattern.toList text.toList = (textMethod method text s).getD false := by
  rw [Bool.eq_iff_iff]
  unfold likePattern at translated
  unfold textMethod
  split at translated
  · next starts =>
      injection translated with translated
      subst translated
      rw [if_pos starts, Option.getD_some, decide_eq_true_eq, String.toList_append]
      exact like_prefix plain _
  · next notStarts =>
      split at translated
      · next ends =>
          injection translated with translated
          subst translated
          rw [if_neg notStarts, if_pos ends, Option.getD_some, decide_eq_true_eq,
            String.toList_append]
          exact like_suffix plain _
      · next notEnds =>
          split at translated
          · next contains =>
              injection translated with translated
              subst translated
              rw [if_neg notStarts, if_neg notEnds, if_pos contains, Option.getD_some,
                decide_eq_true_eq, String.toList_append, String.toList_append, List.append_assoc]
              exact like_infix plain _
          · cases translated

theorem value_of_field {column : Ident} (found : ormExtractField fields param expr = some column) :
    value eval fields param row expr = row column := by
  unfold value
  split
  · cases found
  · cases found
  · cases found
  · cases found
  · rw [found]

/-- Parameters of a condition stand in the query's parameters from an offset on. -/
def Placed (eval : Eval) (all : List ParamText) (offset : Nat) (params : List ParamCode) : Prop :=
  ∀ i code, params[i]? = some code → all[offset + i]? = some (code.value eval)

theorem Placed.left {all : List ParamText} {left right : List ParamCode}
    (placed : Placed eval all offset (left ++ right)) : Placed eval all offset left := by
  intro i code at_
  apply placed
  rw [List.getElem?_append_left (List.getElem?_eq_some_iff.mp at_).1]
  exact at_

theorem Placed.right {all : List ParamText} {left right : List ParamCode}
    (placed : Placed eval all offset (left ++ right)) :
    Placed eval all (offset + left.length) right := by
  intro i code at_
  rw [Nat.add_assoc]
  apply placed
  rw [List.getElem?_append_right (Nat.le_add_right _ _), Nat.add_sub_cancel_left]
  exact at_

/-- What a translated condition is to the database on a row. -/
structure Translated (genExpr : Expr → Option LlvmType) (eval : Eval) (fields : List EntityField)
    (param : Ident) (row : Row) (all : List ParamText) (body : Expr) (offset : Nat)
    (sql : List (Token ColumnTest)) (params : List ParamCode) (b : Bool) : Prop where
  whole : Whole (testTrue all row) sql b
  conjunct : ¬ TopOr body → Conjunct (testTrue all row) sql b
  right : RowRight genExpr eval fields param row body →
    (∀ code ∈ params, code.wellTyped = true) → Placed eval all offset params →
      b = truth eval fields param row body

theorem translated_compare {op : BinaryOp} {lhs rhs operand : Expr} {column : Ident} {test : SqlOp}
    {code : ParamCode} (all : List ParamText)
    (emitted : emitOrmParamValue genExpr operand = some code)
    (meaning : truth eval fields param row (.binary op lhs rhs) = compareCells test (row column) (value eval fields param row operand))
    (operandRight : RowRight genExpr eval fields param row (.binary op lhs rhs) → OperandRight genExpr eval fields param row (row column) operand) :
    ∃ b, Translated genExpr eval fields param row all (.binary op lhs rhs) offset
      [.test (.compare column test (offset + 1))] [code] b := by
  refine ⟨_, (conjunct_test _).whole, fun _ => conjunct_test _, ?_⟩
  intro right typed placed
  have at_ : all[offset]? = some (code.value eval) := placed 0 code rfl
  rw [meaning, testTrue, Nat.add_sub_cancel, at_]
  exact compareColumn_value test emitted (typed code List.mem_cons_self) (operandRight right)

theorem Emission.join_eq_some {connective : Token ColumnTest} {left : Emission}
    {right : Nat → Emission} {sql : List (Token ColumnTest)} {params : List ParamCode}
    (joined : (left.join connective right).result = some (sql, params)) :
    ∃ leftSql leftParams rightSql rightParams, left.result = some (leftSql, leftParams) ∧
      (right leftParams.length).result = some (rightSql, rightParams) ∧
      parens leftSql ++ connective :: parens rightSql = sql ∧ leftParams ++ rightParams = params := by
  rw [Emission.join] at joined
  split at joined
  next none_ =>
    rw [none_] at joined
    cases joined
  next leftSql leftParams isLeft =>
    rcases Option.map_eq_some_iff.mp joined with ⟨⟨rightSql, rightParams⟩, isRight, same⟩
    injection same with sqlSame paramsSame
    exact ⟨leftSql, leftParams, rightSql, rightParams, isLeft, isRight, sqlSame, paramsSame⟩

/-- A translated lambda body is a condition, and on a row with right operands it
is true when the body is. -/
theorem lambdaToSqlAndParams_translated {sql : List (Token ColumnTest)} {params : List ParamCode}
    (translated : (lambdaToSqlAndParams genExpr fields param body offset).result = some (sql, params))
    (all : List ParamText) :
    ∃ b, Translated genExpr eval fields param row all body offset sql params b := by
  induction body, offset using lambdaToSqlAndParams.induct genExpr fields param
    generalizing sql params with
  | case1 lhs rhs offset ihLeft ihRight =>
      rw [lambdaToSqlAndParams] at translated
      rcases Emission.join_eq_some translated with
        ⟨leftSql, leftParams, rightSql, rightParams, leftTranslated, rightTranslated, rfl, rfl⟩
      rcases ihLeft leftTranslated with ⟨a, left⟩
      rcases ihRight _ rightTranslated with ⟨b, right⟩
      have both := left.whole.group.and right.whole.group
      refine ⟨a && b, both.whole, fun _ => both, ?_⟩
      intro rowRight typed placed
      rw [RowRight] at rowRight
      rw [truth,
        ← left.right rowRight.1 (fun code member => typed code (List.mem_append_left _ member))
          placed.left,
        ← right.right rowRight.2 (fun code member => typed code (List.mem_append_right _ member))
          placed.right]
  | case2 lhs rhs offset ihLeft ihRight =>
      rw [lambdaToSqlAndParams] at translated
      rcases Emission.join_eq_some translated with
        ⟨leftSql, leftParams, rightSql, rightParams, leftTranslated, rightTranslated, rfl, rfl⟩
      rcases ihLeft leftTranslated with ⟨a, left⟩
      rcases ihRight _ rightTranslated with ⟨b, right⟩
      refine ⟨a || b, left.whole.group.or right.whole.group, fun top => absurd trivial top, ?_⟩
      intro rowRight typed placed
      rw [RowRight] at rowRight
      rw [truth,
        ← left.right rowRight.1 (fun code member => typed code (List.mem_append_left _ member))
          placed.left,
        ← right.right rowRight.2 (fun code member => typed code (List.mem_append_right _ member))
          placed.right]
  | case3 op lhs rhs offset notAnd notOr none_ =>
      rw [lambdaToSqlAndParams, none_] at translated
      · cases translated
      · exact notAnd
      · exact notOr
  | case4 op lhs rhs offset notAnd notOr test isTest column found =>
      rw [lambdaToSqlAndParams, isTest] at translated
      · simp only [found, emitTest] at translated
        split at translated
        · next code emitted =>
            injection translated with same
            injection same with sqlSame paramsSame
            subst sqlSame paramsSame
            apply translated_compare all emitted
            · rw [truth, isTest]
              · simp only [value_of_field found]
              · exact notAnd
              · exact notOr
            · intro right
              rw [RowRight] at right
              · simpa only [found] using right
              · exact notAnd
              · exact notOr
        · cases translated
      · exact notAnd
      · exact notOr
  | case5 op lhs rhs offset notAnd notOr test isTest column found notFound =>
      rw [lambdaToSqlAndParams, isTest] at translated
      · simp only [found, notFound, emitTest] at translated
        split at translated
        · next code emitted =>
            injection translated with same
            injection same with sqlSame paramsSame
            subst sqlSame paramsSame
            apply translated_compare all emitted
            · rw [truth, isTest]
              · simp only [value_of_field found, compareCells_flipped]
              · exact notAnd
              · exact notOr
            · intro right
              rw [RowRight] at right
              · simpa only [found, notFound] using right
              · exact notAnd
              · exact notOr
        · cases translated
      · exact notAnd
      · exact notOr
  | case6 op lhs rhs offset notAnd notOr test isTest notFound notFound' =>
      rw [lambdaToSqlAndParams, isTest] at translated
      · simp only [notFound, notFound'] at translated
        cases translated
      · exact notAnd
      · exact notOr
  | case7 operand offset ih =>
      rw [lambdaToSqlAndParams] at translated
      rcases Option.map_eq_some_iff.mp translated with ⟨⟨innerSql, innerParams⟩, inner, same⟩
      injection same with sqlSame paramsSame
      subst sqlSame paramsSame
      rcases ih inner with ⟨b, operandTranslated⟩
      have negation := operandTranslated.whole.not
      refine ⟨!b, negation.whole, fun _ => negation, ?_⟩
      intro rowRight typed placed
      rw [RowRight] at rowRight
      rw [truth, ← operandTranslated.right rowRight typed placed]
  | case8 obj method s offset column pattern isPattern found =>
      rw [lambdaToSqlAndParams] at translated
      simp only [found, isPattern] at translated
      injection translated with same
      injection same with sqlSame paramsSame
      subst sqlSame paramsSame
      refine ⟨_, (conjunct_test _).whole, fun _ => conjunct_test _, ?_⟩
      intro rowRight typed placed
      rw [RowRight] at rowRight
      rcases rowRight.2 column found with ⟨text, isText⟩
      have at_ : all[offset]? = some (.text pattern) := placed 0 (.text pattern) rfl
      rw [truth, value_of_field found, testTrue, Nat.add_sub_cancel, at_, isText]
      exact like_likePattern text rowRight.1 isPattern
  | case9 obj method s offset none_ =>
      rw [lambdaToSqlAndParams] at translated
      split at translated
      · next column pattern found isPattern => exact absurd isPattern (none_ column pattern found)
      · cases translated
  | case10 body offset notAnd notOr notBinary notNot notMethod =>
      rw [lambdaToSqlAndParams] at translated
      · cases translated
      all_goals assumption

theorem lambdaToSqlAndParams_isSome (translates : Translates genExpr fields param body)
    (offset : Nat) : ∃ sql params, lambdaToSqlAndParams genExpr fields param body offset =
      ⟨params, some (sql, params)⟩ := by
  have test : ∀ {operand : Expr}, (emitOrmParamValue genExpr operand).isSome = true →
      ∀ columnTest, ∃ sql params, emitTest genExpr columnTest operand =
        ⟨params, some (sql, params)⟩ := by
    intro operand isSome columnTest
    rcases Option.isSome_iff_exists.mp isSome with ⟨code, emitted⟩
    exact ⟨[.test columnTest], [code], by rw [emitTest, emitted]⟩
  have join : ∀ {left : Emission} {right : Nat → Emission} (connective : Token ColumnTest),
      (∃ sql params, left = ⟨params, some (sql, params)⟩) →
      (∀ used, ∃ sql params, right used = ⟨params, some (sql, params)⟩) →
      ∃ sql params, left.join connective right = ⟨params, some (sql, params)⟩ := by
    rintro left right connective ⟨leftSql, leftParams, rfl⟩ rightEach
    rcases rightEach leftParams.length with ⟨rightSql, rightParams, rightSame⟩
    exact ⟨parens leftSql ++ connective :: parens rightSql, leftParams ++ rightParams, by
      simp only [Emission.join, rightSame, Option.map_some]⟩
  induction body, offset using lambdaToSqlAndParams.induct genExpr fields param with
  | case1 lhs rhs offset ihLeft ihRight | case2 lhs rhs offset ihLeft ihRight =>
      rw [Translates] at translates
      rw [lambdaToSqlAndParams]
      exact join _ (ihLeft translates.1) fun used => ihRight used translates.2
  | case3 op lhs rhs offset notAnd notOr none_ =>
      rw [Translates, none_] at translates
      · cases translates.1
      · exact notAnd
      · exact notOr
  | case4 op lhs rhs offset notAnd notOr columnTest isTest column found =>
      rw [Translates, found] at translates
      · rw [lambdaToSqlAndParams, isTest]
        · simp only [found]
          exact test translates.2 _
        · exact notAnd
        · exact notOr
      · exact notAnd
      · exact notOr
  | case5 op lhs rhs offset notAnd notOr columnTest isTest column found notFound =>
      rw [Translates, found, notFound] at translates
      · rw [lambdaToSqlAndParams, isTest]
        · simp only [found, notFound]
          exact test translates.2 _
        · exact notAnd
        · exact notOr
      · exact notAnd
      · exact notOr
  | case6 op lhs rhs offset notAnd notOr columnTest isTest notFound notFound' =>
      rw [Translates, notFound, notFound'] at translates
      · exact translates.2.elim
      · exact notAnd
      · exact notOr
  | case7 operand offset ih =>
      rw [Translates] at translates
      rcases ih translates with ⟨sql, params, same⟩
      exact ⟨_, _, by simp only [lambdaToSqlAndParams, same, Option.map_some]; rfl⟩
  | case8 obj method s offset column pattern isPattern found =>
      exact ⟨_, _, by simp only [lambdaToSqlAndParams, found, isPattern]; rfl⟩
  | case9 obj method s offset none_ =>
      rw [Translates] at translates
      rcases Option.isSome_iff_exists.mp translates.1 with ⟨column, found⟩
      rcases Option.isSome_iff_exists.mp translates.2 with ⟨pattern, isPattern⟩
      exact (none_ column pattern found isPattern).elim
  | case10 body offset notAnd notOr notBinary notNot notMethod =>
      rw [Translates] at translates
      · exact translates.elim
      all_goals assumption

theorem translates_of_isSome (offset : Nat)
    (isSome : (lambdaToSqlAndParams genExpr fields param body offset).result.isSome = true) :
    Translates genExpr fields param body := by
  have join : ∀ {left : Emission} {right : Nat → Emission} {connective : Token ColumnTest},
      (left.join connective right).result.isSome = true →
        left.result.isSome = true ∧ ∃ used, (right used).result.isSome = true := by
    intro left right connective joined
    rw [Emission.join] at joined
    split at joined
    · next none_ => rw [none_] at joined; cases joined
    · next leftSql leftParams leftSome =>
        rw [Option.isSome_map] at joined
        exact ⟨by rw [leftSome]; rfl, _, joined⟩
  have test : ∀ {columnTest : ColumnTest} {operand : Expr},
      (emitTest genExpr columnTest operand).result.isSome = true →
        (emitOrmParamValue genExpr operand).isSome = true := by
    intro columnTest operand emitted
    rw [emitTest] at emitted
    split at emitted
    · next code found => rw [found]; rfl
    · cases emitted
  induction body, offset using lambdaToSqlAndParams.induct genExpr fields param with
  | case1 lhs rhs offset ihLeft ihRight | case2 lhs rhs offset ihLeft ihRight =>
      rw [lambdaToSqlAndParams] at isSome
      rcases join isSome with ⟨left, used, right⟩
      exact ⟨ihLeft left, ihRight used right⟩
  | case3 op lhs rhs offset notAnd notOr none_ =>
      rw [lambdaToSqlAndParams, none_] at isSome
      · cases isSome
      · exact notAnd
      · exact notOr
  | case4 op lhs rhs offset notAnd notOr columnTest isTest column found =>
      rw [lambdaToSqlAndParams, isTest] at isSome
      · simp only [found] at isSome
        rw [Translates, found, isTest]
        · exact ⟨rfl, test isSome⟩
        · exact notAnd
        · exact notOr
      · exact notAnd
      · exact notOr
  | case5 op lhs rhs offset notAnd notOr columnTest isTest column found notFound =>
      rw [lambdaToSqlAndParams, isTest] at isSome
      · simp only [found, notFound] at isSome
        rw [Translates, found, notFound, isTest]
        · exact ⟨rfl, test isSome⟩
        · exact notAnd
        · exact notOr
      · exact notAnd
      · exact notOr
  | case6 op lhs rhs offset notAnd notOr columnTest isTest notFound notFound' =>
      rw [lambdaToSqlAndParams, isTest] at isSome
      · simp only [notFound, notFound'] at isSome
        cases isSome
      · exact notAnd
      · exact notOr
  | case7 operand offset ih =>
      rw [lambdaToSqlAndParams] at isSome
      rw [Option.isSome_map] at isSome
      exact ih isSome
  | case8 obj method s offset column pattern isPattern found =>
      rw [Translates, found, isPattern]
      exact ⟨rfl, rfl⟩
  | case9 obj method s offset none_ =>
      rw [lambdaToSqlAndParams] at isSome
      split at isSome
      · next column pattern found isPattern => exact (none_ column pattern found isPattern).elim
      · cases isSome
  | case10 body offset notAnd notOr notBinary notNot notMethod =>
      rw [lambdaToSqlAndParams] at isSome
      · cases isSome
      all_goals assumption

/-! ## All filters -/

/-- What the conditions of all filters are to the database on a row. -/
structure FiltersTranslated (genExpr : Expr → Option LlvmType) (eval : Eval)
    (fields : List EntityField) (row : Row) (all : List ParamText) (filters : List (Ident × Expr))
    (offset : Nat) (conditions : List (List (Token ColumnTest))) (params : List ParamCode)
    (values : List Bool) : Prop where
  whole : List.Forall₂ (Whole (testTrue all row)) conditions values
  conjunct : (∀ filter ∈ filters, ¬ TopOr filter.2) →
    List.Forall₂ (Conjunct (testTrue all row)) conditions values
  right : (∀ filter ∈ filters, RowRight genExpr eval fields filter.1 row filter.2) →
    (∀ code ∈ params, code.wellTyped = true) → Placed eval all offset params →
      values = filters.map fun filter => truth eval fields filter.1 row filter.2

theorem genFilters_translated {filters : List (Ident × Expr)}
    (translates : ∀ filter ∈ filters, Translates genExpr fields filter.1 filter.2) (offset : Nat) :
    ∃ conditions params, genFilters genExpr fields filters offset = (conditions, params, params) ∧
      conditions.length = filters.length ∧
      ∀ all row, ∃ values,
        FiltersTranslated genExpr eval fields row all filters offset conditions params values := by
  induction filters generalizing offset with
  | nil => exact ⟨[], [], rfl, rfl, fun all row => ⟨[], .nil, fun _ => .nil, fun _ _ _ => rfl⟩⟩
  | cons filter filters ih =>
      rcases filter with ⟨param, body⟩
      rcases lambdaToSqlAndParams_isSome (translates (param, body) List.mem_cons_self) offset with
        ⟨sql, params, generated⟩
      have later : ∀ filter ∈ filters, Translates genExpr fields filter.1 filter.2 :=
        fun filter member => translates filter (List.mem_cons_of_mem _ member)
      rcases ih later (offset + params.length) with
        ⟨conditions, rest, restGenerated, sameLength, restTranslated⟩
      refine ⟨sql :: conditions, params ++ rest, ?_, ?_, ?_⟩
      · simp only [genFilters, generated, restGenerated]
      · rw [List.length_cons, List.length_cons, sameLength]
      · intro all row
        have result : (lambdaToSqlAndParams genExpr fields param body offset).result =
            some (sql, params) := by
          rw [generated]
        have headTranslated : ∃ b,
            Translated genExpr eval fields param row all body offset sql params b :=
          lambdaToSqlAndParams_translated result all
        rcases headTranslated with ⟨b, head⟩
        rcases restTranslated all row with ⟨values, tail⟩
        refine ⟨b :: values, .cons head.whole tail.whole, ?_, ?_⟩
        · intro noOr
          exact .cons (head.conjunct (noOr _ List.mem_cons_self))
            (tail.conjunct fun filter member => noOr filter (List.mem_cons_of_mem _ member))
        · intro right typed placed
          rw [List.map_cons,
            head.right (right _ List.mem_cons_self)
              (fun code member => typed code (List.mem_append_left _ member)) placed.left,
            tail.right (fun filter member => right filter (List.mem_cons_of_mem _ member))
              (fun code member => typed code (List.mem_append_right _ member)) placed.right]

theorem genFilters_length (filters : List (Ident × Expr)) (offset : Nat) :
    (genFilters genExpr fields filters offset).1.length ≤ filters.length ∧
      ((genFilters genExpr fields filters offset).1.length = filters.length →
        ∀ filter ∈ filters, Translates genExpr fields filter.1 filter.2) := by
  induction filters generalizing offset with
  | nil => exact ⟨Nat.le_refl _, fun _ filter member => by cases member⟩
  | cons filter filters ih =>
      rcases filter with ⟨param, body⟩
      rw [genFilters]
      cases result : (lambdaToSqlAndParams genExpr fields param body offset).result with
      | none =>
          rcases ih offset with ⟨bound, -⟩
          simp only [List.length_cons]
          refine ⟨Nat.le_succ_of_le bound, fun same => ?_⟩
          exact absurd bound (by simp [same])
      | some translated =>
          rcases translated with ⟨sql, params⟩
          rcases ih (offset + params.length) with ⟨bound, each⟩
          simp only [List.length_cons]
          refine ⟨Nat.succ_le_succ bound, fun same filter member => ?_⟩
          rcases List.mem_cons.mp member with rfl | member
          · exact translates_of_isSome offset (by rw [result]; rfl)
          · exact each (Nat.succ.inj same) filter member

/-- Filters of which at most one stands there, or none has `||` outermost, are
joined to a condition that is true when all of them are. -/
theorem evaluate_joinAnd {α : Type} {test : α → Bool} {conditions : List (List (Token α))}
    {values : List Bool} (nonempty : conditions ≠ [])
    (whole : List.Forall₂ (Whole test) conditions values)
    (grouped : conditions.length ≤ 1 ∨ List.Forall₂ (Conjunct test) conditions values) :
    evaluate test (joinAnd conditions) = some (values.all id) := by
  rcases grouped with single | conjunct
  · cases whole with
    | nil => exact absurd rfl nonempty
    | cons head tail =>
        cases tail with
        | nil => simpa [joinAnd] using head.ends
        | cons next tail => exact absurd single (by simp)
  · exact (conjunct_joinAnd nonempty conjunct).whole.ends

/-! ## Whole chains -/

variable {chain : SourceChain}

/-- The generator collects the lambdas and the written numbers of a chain. -/
theorem unwindOrmChain_of_readChain (read : readChain expr = some chain) (acc : OrmChain) :
    unwindOrmChain expr acc = some
      { acc with
        entityClass := chain.entityClass
        filters := acc.filters ++ chain.filters.filterMap lambdaOf
        limit := (chain.limit.bind literalOf).or acc.limit
        offsetVal := (chain.offset.bind literalOf).or acc.offsetVal } := by
  induction expr using readChain.induct generalizing chain acc with
  | case1 obj args ih =>
      rw [readChain, if_pos rfl] at read
      rcases Option.map_eq_some_iff.mp read with ⟨inner, innerRead, rfl⟩
      rw [unwindOrmChain, if_pos rfl, ih innerRead]
      cases lambda : lambdaOf args.head? <;> simp [lambda]
  | case2 obj args notFilter ih =>
      rw [readChain, if_neg notFilter, if_pos rfl] at read
      rcases Option.bind_eq_some_iff.mp read with ⟨inner, innerRead, once⟩
      simp only [Option.ite_none_left_eq_some, Option.some.injEq, Bool.not_eq_true,
        Option.isSome_eq_false_iff, Option.isNone_iff_eq_none] at once
      rcases once with ⟨unlimited, rfl⟩
      rw [unwindOrmChain, if_neg notFilter, if_neg (by decide), if_neg (by decide), if_pos rfl,
        ih innerRead]
      simp [unlimited]
  | case3 obj args notFilter notLimit ih =>
      rw [readChain, if_neg notFilter, if_neg notLimit, if_pos rfl] at read
      rcases Option.bind_eq_some_iff.mp read with ⟨inner, innerRead, once⟩
      simp only [Option.ite_none_left_eq_some, Option.some.injEq, Bool.not_eq_true,
        Option.isSome_eq_false_iff, Option.isNone_iff_eq_none] at once
      rcases once with ⟨unlimited, rfl⟩
      rw [unwindOrmChain, if_neg notFilter, if_neg (by decide), if_neg (by decide),
        if_neg notLimit, if_pos rfl, ih innerRead]
      simp [unlimited]
  | case4 obj args notFilter notLimit notOffset =>
      rw [readChain, if_neg notFilter, if_neg notLimit, if_neg notOffset, if_pos rfl] at read
      rcases Option.bind_eq_some_iff.mp read with ⟨className, named, nonempty⟩
      simp only [Option.ite_none_left_eq_some, Option.some.injEq] at nonempty
      rcases nonempty with ⟨-, rfl⟩
      rw [unwindOrmChain, if_neg notFilter, if_neg (by decide), if_neg (by decide),
        if_neg notLimit, if_neg notOffset, if_pos rfl, named]
      simp
  | case5 obj method args notFilter notLimit notOffset notOf =>
      rw [readChain, if_neg notFilter, if_neg notLimit, if_neg notOffset, if_neg notOf] at read
      cases read
  | case6 expr notCall =>
      rw [readChain] at read
      · cases read
      · exact notCall

theorem entityClass_ne (read : readChain expr = some chain) : chain.entityClass ≠ "" := by
  induction expr using readChain.induct generalizing chain with
  | case1 obj args ih =>
      rw [readChain, if_pos rfl] at read
      rcases Option.map_eq_some_iff.mp read with ⟨inner, innerRead, rfl⟩
      have innerClass := ih innerRead
      exact innerClass
  | case2 obj args notFilter ih =>
      rw [readChain, if_neg notFilter, if_pos rfl] at read
      rcases Option.bind_eq_some_iff.mp read with ⟨inner, innerRead, once⟩
      simp only [Option.ite_none_left_eq_some, Option.some.injEq] at once
      rcases once with ⟨-, rfl⟩
      have innerClass := ih innerRead
      exact innerClass
  | case3 obj args notFilter notLimit ih =>
      rw [readChain, if_neg notFilter, if_neg notLimit, if_pos rfl] at read
      rcases Option.bind_eq_some_iff.mp read with ⟨inner, innerRead, once⟩
      simp only [Option.ite_none_left_eq_some, Option.some.injEq] at once
      rcases once with ⟨-, rfl⟩
      have innerClass := ih innerRead
      exact innerClass
  | case4 obj args notFilter notLimit notOffset =>
      rw [readChain, if_neg notFilter, if_neg notLimit, if_neg notOffset, if_pos rfl] at read
      rcases Option.bind_eq_some_iff.mp read with ⟨className, named, nonempty⟩
      simp only [Option.ite_none_left_eq_some, Option.some.injEq] at nonempty
      rcases nonempty with ⟨nonempty, rfl⟩
      exact nonempty
  | case5 obj method args notFilter notLimit notOffset notOf =>
      rw [readChain, if_neg notFilter, if_neg notLimit, if_neg notOffset, if_neg notOf] at read
      cases read
  | case6 expr notCall =>
      rw [readChain] at read
      · cases read
      · exact notCall

theorem tryExtractOrmChain_of_readChain (read : readChain expr = some chain) :
    tryExtractOrmChain expr = some
      ⟨chain.entityClass, chain.filters.filterMap lambdaOf, [], chain.limit.bind literalOf,
        chain.offset.bind literalOf⟩ := by
  rw [tryExtractOrmChain, unwindOrmChain_of_readChain read]
  simp [Option.filter, entityClass_ne read]

theorem filters_all_lambdas {filters : List (Option Expr)} (eval : Eval)
    (applies : Expr → Row → Bool) (fields : List EntityField)
    (lambdas : ∀ filter ∈ filters, (lambdaOf filter).isSome = true) :
    (filters.filterMap lambdaOf).length = filters.length ∧
      ∀ row, filters.all (filterTrue eval applies fields row) =
        ((filters.filterMap lambdaOf).map fun filter =>
          truth eval fields filter.1 row filter.2).all id := by
  induction filters with
  | nil => exact ⟨rfl, fun row => rfl⟩
  | cons filter filters ih =>
      rcases Option.isSome_iff_exists.mp (lambdas filter List.mem_cons_self) with
        ⟨⟨param, body⟩, lambda⟩
      rcases ih fun later member => lambdas later (List.mem_cons_of_mem _ member) with
        ⟨lengths, values⟩
      rw [List.filterMap_cons_some lambda]
      constructor
      · rw [List.length_cons, List.length_cons, lengths]
      · intro row
        have headTrue : filterTrue eval applies fields row filter =
            truth eval fields param row body := by
          cases filter with
          | none => cases lambda
          | some filter => simp only [filterTrue, lambda]
        rw [List.all_cons, List.map_cons, List.all_cons, headTrue, values row]
        rfl

/-- Every part of the chain can be translated, and the names of the entity are
identifiers to the database. -/
structure ChainComplete (genExpr : Expr → Option LlvmType) (isName : Ident → Bool)
    (entity : EntityEntry) (chain : SourceChain) : Prop where
  tableName : isName entity.tableName = true
  columnNames : ∀ field ∈ entity.fields, isName field.columnName = true
  lambdas : ∀ filter ∈ chain.filters, (lambdaOf filter).isSome = true
  translates : ∀ filter ∈ chain.filters.filterMap lambdaOf,
    Translates genExpr entity.fields filter.1 filter.2
  limit : ∀ arg ∈ chain.limit, (literalOf arg).isSome = true
  offset : ∀ arg ∈ chain.offset, (literalOf arg).isSome = true

/-- No `||` is outermost in one of several filters. -/
def Grouped (chain : SourceChain) : Prop :=
  chain.filters.length ≤ 1 ∨ ∀ filter ∈ chain.filters.filterMap lambdaOf, ¬ TopOr filter.2

/-- The filters are right on every row of the table. -/
def RowsRight (genExpr : Expr → Option LlvmType) (eval : Eval) (entity : EntityEntry)
    (chain : SourceChain) (table : List Row) : Prop :=
  ∀ row ∈ table, ∀ filter ∈ chain.filters.filterMap lambdaOf,
    RowRight genExpr eval entity.fields filter.1 row filter.2

theorem literal_count {count : Option (Option Expr)} (eval : Eval)
    (written : ∀ arg ∈ count, (literalOf arg).isSome = true) :
    count.bind literalOf = countOf eval count ∧
      (count.bind literalOf).isSome = count.isSome := by
  cases count with
  | none => exact ⟨rfl, rfl⟩
  | some arg =>
      have isLiteral := written arg rfl
      unfold literalOf at isLiteral
      split at isLiteral
      · exact ⟨rfl, rfl⟩
      · cases isLiteral

theorem compileChain_eq_some {entities : List EntityEntry} {entity : EntityEntry} {query : Query}
    (read : readChain expr = some chain)
    (found : entities.find? (·.className = chain.entityClass) = some entity)
    (compiled : compileChain genExpr entities expr = some query) :
    (genFilters genExpr entity.fields (chain.filters.filterMap lambdaOf) 0).2.2.all
        ParamCode.wellTyped = true ∧
      query = {
        columns := entity.fields.map (·.columnName)
        table := entity.tableName
        conditions := (genFilters genExpr entity.fields (chain.filters.filterMap lambdaOf) 0).1
        orderBy := []
        limit := chain.limit.bind literalOf
        offset := chain.offset.bind literalOf
        params := (genFilters genExpr entity.fields (chain.filters.filterMap lambdaOf) 0).2.1 } := by
  rw [compileChain, tryExtractOrmChain_of_readChain read] at compiled
  simp only [found] at compiled
  split at compiled
  · next typed =>
      injection compiled with compiled
      exact ⟨typed, compiled.symm⟩
  · cases compiled

/-- A complete chain whose filters are right is compiled to a query that means
its lambdas. -/
theorem meansLambdas_of_complete (genExpr : Expr → Option LlvmType) (eval : Eval)
    (applies : Expr → Row → Bool) (isName : Ident → Bool)
    (sort : List (Ident × Bool) → List Row → List Row) (entities : List EntityEntry)
    (entity : EntityEntry) (chain : SourceChain) (expr : Expr) (table : List Row)
    (read : readChain expr = some chain)
    (found : entities.find? (·.className = chain.entityClass) = some entity)
    (complete : ChainComplete genExpr isName entity chain) (grouped : Grouped chain)
    (rows : RowsRight genExpr eval entity chain table) :
    MeansLambdas genExpr eval applies isName sort entities entity chain expr table := by
  intro query compiled
  rcases genFilters_translated complete.translates 0 with
    ⟨conditions, params, generated, lengths, translated⟩
  rcases filters_all_lambdas eval applies entity.fields complete.lambdas with
    ⟨lambdaLengths, lambdaValues⟩
  rcases literal_count eval complete.limit with ⟨limitSame, limitSome⟩
  rcases literal_count eval complete.offset with ⟨offsetSame, offsetSome⟩
  rcases compileChain_eq_some read found compiled with ⟨typed, rfl⟩
  simp only [generated] at typed compiled ⊢
  have conditionTrue : ∀ all row values,
      FiltersTranslated genExpr eval entity.fields row all (chain.filters.filterMap lambdaOf) 0
        conditions params values →
      (if conditions.isEmpty then some true else evaluate (testTrue all row) (joinAnd conditions)) =
        some (values.all id) := by
    intro all row values filters
    by_cases none_ : conditions = []
    · subst none_
      cases filters.whole
      rfl
    · rw [if_neg (by simpa using none_)]
      apply evaluate_joinAnd none_ filters.whole
      rcases grouped with single | noOr
      · exact Or.inl (lengths.trans lambdaLengths ▸ single)
      · exact Or.inr (filters.conjunct noOr)
  have placed : Placed eval (params.map (ParamCode.value eval)) 0 params := by
    intro i code at_
    rw [Nat.zero_add, List.getElem?_map, at_, Option.map_some]
  refine ⟨⟨lengths.trans lambdaLengths, limitSome, offsetSome⟩, ⟨complete.tableName, ?_, ?_⟩, ?_⟩
  · intro column member
    rcases List.mem_map.mp member with ⟨field, fieldMember, rfl⟩
    exact complete.columnNames field fieldMember
  · intro all row
    rcases translated all row with ⟨values, filters⟩
    rw [Query.whereTrue, conditionTrue all row values filters]
    rfl
  · simp only [Query.rows, SourceChain.rows, limitSame, offsetSame, List.isEmpty_nil, if_true]
    congr 1
    apply List.filter_congr
    intro row member
    rcases translated (params.map (ParamCode.value eval)) row with ⟨values, filters⟩
    have valuesSame := filters.right (rows row member) (List.all_eq_true.mp typed) placed
    rw [Query.whereTrue, conditionTrue _ row values filters, lambdaValues row, ← valuesSame]
    cases values.all id <;> rfl

theorem complete_of_meansLambdas {genExpr : Expr → Option LlvmType} {eval : Eval}
    {applies : Expr → Row → Bool} {isName : Ident → Bool}
    {sort : List (Ident × Bool) → List Row → List Row} {entities : List EntityEntry}
    {entity : EntityEntry} {table : List Row} {query : Query} (read : readChain expr = some chain)
    (found : entities.find? (·.className = chain.entityClass) = some entity)
    (compiled : compileChain genExpr entities expr = some query)
    (means : MeansLambdas genExpr eval applies isName sort entities entity chain expr table) :
    ChainComplete genExpr isName entity chain := by
  rcases means query compiled with ⟨⟨lengths, limitSome, offsetSome⟩, ⟨named, columns, -⟩, -⟩
  rcases compileChain_eq_some read found compiled with ⟨-, rfl⟩
  simp only at lengths
  have counted : (genFilters genExpr entity.fields (chain.filters.filterMap lambdaOf) 0).1.length ≤
        (chain.filters.filterMap lambdaOf).length ∧
      (_ → ∀ filter ∈ chain.filters.filterMap lambdaOf,
        Translates genExpr entity.fields filter.1 filter.2) :=
    genFilters_length (chain.filters.filterMap lambdaOf) 0
  rcases counted with ⟨bound, each⟩
  have lambdaBound := List.length_filterMap_le lambdaOf chain.filters
  have written : ∀ {count : Option (Option Expr)},
      (count.bind literalOf).isSome = count.isSome → ∀ arg ∈ count, (literalOf arg).isSome = true := by
    rintro count same arg rfl
    exact same
  exact {
    tableName := named
    columnNames := fun field member => columns _ (List.mem_map_of_mem member)
    lambdas := List.filterMap_length_eq_length.mp (by omega)
    translates := each (by omega)
    limit := written limitSome
    offset := written offsetSome }

/-- A chain whose filters are grouped and right on the rows is rejected or
compiled to a query that means its lambdas exactly when LLVM rejects it or
every part of it can be translated. -/
theorem meansLambdas_iff (genExpr : Expr → Option LlvmType) (eval : Eval)
    (applies : Expr → Row → Bool) (isName : Ident → Bool)
    (sort : List (Ident × Bool) → List Row → List Row) (entities : List EntityEntry)
    (entity : EntityEntry) (chain : SourceChain) (expr : Expr) (table : List Row)
    (read : readChain expr = some chain)
    (found : entities.find? (·.className = chain.entityClass) = some entity)
    (grouped : Grouped chain) (rows : RowsRight genExpr eval entity chain table) :
    MeansLambdas genExpr eval applies isName sort entities entity chain expr table ↔
      compileChain genExpr entities expr = none ∨ ChainComplete genExpr isName entity chain := by
  constructor
  · intro means
    cases compiled : compileChain genExpr entities expr with
    | none => exact Or.inl rfl
    | some query => exact Or.inr (complete_of_meansLambdas read found compiled means)
  · rintro (rejected | complete)
    · intro query compiled
      rw [rejected] at compiled
      cases compiled
    · exact meansLambdas_of_complete _ _ _ _ _ _ _ _ _ _ read found complete grouped rows

/-- `@Entity class User` with three columns. -/
def userEntity : EntityEntry where
  className := "User"
  tableName := "users"
  fields := [⟨"a", "a"⟩, ⟨"b", "b"⟩, ⟨"active", "active"⟩]

/-- The lambda `u => body`. -/
def userLambda (body : Expr) : Expr := .lambda [⟨"u", .named "User", []⟩] none body

/-- `u.field == n`. -/
def userEq (field : Ident) (n : Int) : Expr :=
  .binary .eq (.fieldAccess (.ident "u") field) (.literal (.integer n))

/-- `DB.of(User).filter(u => u.a == 1)`. -/
def userFilter : Expr :=
  .methodCall (.methodCall (.ident "DB") "of" [.ident "User"]) "filter"
    [userLambda (userEq "a" 1)]

/-- A row of numbers. -/
def numberRow (a b active : ℚ) : Row := fun column =>
  .number (if column = "a" then a else if column = "b" then b else active)

/-- The query of `DB.of(User).filter(u => u.a == 1)` returns the rows with 1. -/
theorem meansLambdas_filter :
    MeansLambdas (fun _ => none) (fun _ _ => .null) (fun _ _ => true) (fun _ => true)
      (fun _ rows => rows) [userEntity] userEntity
      ⟨"User", [some (userLambda (userEq "a" 1))], none, none⟩ userFilter
      [numberRow 1 0 0, numberRow 2 0 0] := by
  refine (meansLambdas_iff _ _ _ _ _ _ _ _ _ _ rfl rfl ?_ ?_).mpr (Or.inr ?_)
  · exact Or.inl (Nat.le_refl 1)
  · intro row member filter filterMember
    rcases List.mem_singleton.mp filterMember with rfl
    simp only [List.mem_cons, List.not_mem_nil, or_false] at member
    rcases member with rfl | rfl <;> exact ⟨_, rfl⟩
  · exact {
      tableName := rfl
      columnNames := fun _ _ => rfl
      lambdas := by simp [lambdaOf, userLambda]
      translates := by
        intro filter member
        rcases List.mem_singleton.mp member with rfl
        exact ⟨rfl, rfl⟩
      limit := fun arg member => by cases member
      offset := fun arg member => by cases member }

/-- `DB.of(User).filter(u => u.active)` returns every row, and
`DB.of(User).filter(u => u.b == 1).filter(u => u.a == 1 || u.a == 2)` returns a
row with 1 and 0. -/
theorem chains_not_meansLambdas :
    ¬ MeansLambdas (fun _ => none) (fun _ _ => .null) (fun _ _ => true) (fun _ => true)
        (fun _ rows => rows) [userEntity] userEntity
        ⟨"User", [some (userLambda (.fieldAccess (.ident "u") "active"))], none, none⟩
        (.methodCall (.methodCall (.ident "DB") "of" [.ident "User"]) "filter"
          [userLambda (.fieldAccess (.ident "u") "active")])
        [fun _ => .bool false] ∧
      ¬ MeansLambdas (fun _ => none) (fun _ _ => .null) (fun _ _ => true) (fun _ => true)
        (fun _ rows => rows) [userEntity] userEntity
        ⟨"User", [some (userLambda (.binary .or (userEq "a" 1) (userEq "a" 2))),
          some (userLambda (userEq "b" 1))], none, none⟩
        (.methodCall
          (.methodCall (.methodCall (.ident "DB") "of" [.ident "User"]) "filter"
            [userLambda (userEq "b" 1)])
          "filter" [userLambda (.binary .or (userEq "a" 1) (userEq "a" 2))])
        [numberRow 1 0 0] := by
  constructor
  · intro means
    rcases means _ rfl with ⟨⟨lengths, -⟩, -⟩
    exact absurd lengths (by decide)
  · intro means
    rcases means _ rfl with ⟨-, -, rows⟩
    have counts := congrArg List.length rows
    exact absurd counts (by decide)

end Tinox.Codegen.Orm
