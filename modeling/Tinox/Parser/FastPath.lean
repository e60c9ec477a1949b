import Tinox.Parser.Orderly
import Tinox.Parser.Precedence

/-!
# Statements that start with an identifier

`parse_stmt_inner` reads them by a parser of its own.  Where it agrees with
`parse_expr` is described by what `parse_expr` reads: by the postfix operators
behind the identifier, one after the other, and by what follows them.
-/

namespace Tinox.Parser.FastPath

open Tinox.Syntax Parse

/-! ## The statements on which the parsers agree -/

/-- What the parser of statements has read. -/
inductive Phase where
  /-- `name` -/
  | name
  /-- `name(args)`, or `name[e]..(args)` -/
  | called
  /-- `name[e]..` -/
  | indexed
  /-- `name[e]..` and members, the last one a field -/
  | indexedField
  /-- `name[e]..` and members, the last one a call -/
  | indexedMethod
  /-- `name` and members, the last one a field -/
  | memberField
  /-- `name` and members, the last one a call -/
  | memberMethod
  /-- `name`, members and `[e]..` -/
  | memberIndexed
  /-- `name`, members, `[e]..` and members -/
  | memberIndexedMember
  /-- `name::method`, with members behind it -/
  | static
  deriving DecidableEq

/-- A postfix operator as the parser of statements sees it. -/
inductive Link where
  | index | call | field | method | static
  /-- None of its own. -/
  | other
  deriving DecidableEq

/-- What has been read after one more operator. -/
def Phase.next : Phase → Link → Option Phase
  | .name, .index | .indexed, .index => some .indexed
  | .name, .call | .indexed, .call => some .called
  | .name, .field | .memberField, .field | .memberMethod, .field => some .memberField
  | .name, .method | .memberField, .method | .memberMethod, .method => some .memberMethod
  | .name, .static => some .static
  | .indexed, .field | .indexedField, .field | .indexedMethod, .field => some .indexedField
  | .indexed, .method | .indexedField, .method | .indexedMethod, .method => some .indexedMethod
  | .memberField, .index | .memberMethod, .index | .memberIndexed, .index => some .memberIndexed
  | .memberIndexed, .field | .memberIndexed, .method | .memberIndexedMember, .field
  | .memberIndexedMember, .method => some .memberIndexedMember
  | .static, .field | .static, .method => some .static
  | _, _ => none

/-- Whether `=` can follow. -/
def Phase.assigns : Phase → Bool
  | .name | .indexed | .indexedField | .memberField | .memberIndexed | .memberIndexedMember => true
  | .called | .indexedMethod | .memberMethod | .static => false

/-- Whether `+=` and the like can follow. -/
def Phase.compounds : Phase → Bool
  | .name | .indexed | .memberIndexed | .memberIndexedMember => true
  | .called | .indexedField | .indexedMethod | .memberField | .memberMethod | .static => false

/-- Names that both parsers take for a member. -/
def isMemberName : TokenKind → Bool
  | .ident _ => true
  | .keyword keyword => (keywordIdent keyword).isSome
  | _ => false

/-- The member `name rest` of an expression. -/
def memberLink (expr : Expr) (name : TokenKind) (rest : List TokenKind) : Link :=
  if !isMemberName name then .other
  else if rest.head? == some .lParen then
    if isTypeAccess expr && hasNamedArgs rest then .other else .method
  else if isTypeAccess expr || isGenericMethodCall rest then .other
  else .field

/-- The postfix operator with which the tokens behind an expression start. -/
def linkAt (expr : Expr) : List TokenKind → Link
  | .lBracket :: _ => .index
  | .lParen :: _ => .call
  | .dot :: name :: rest => memberLink expr name rest
  | .colonColon :: name :: rest =>
      if isMemberName name && !isGenericMethodCall rest then .static else .other
  | _ => .other

/-- The state behind the current token. -/
def behind (s : State) : State :=
  { s with rest := s.rest.tail }

@[simp] theorem bump_apply (s : State) : bump s = some (.ok (), behind s) :=
  rfl

/-- The value behind an operator of assignment is also accepted one level
deeper. -/
def ValueFits (r : Rec) (s : State) : Prop :=
  ∃ value s', r.expr (behind s) = some (.ok value, s') ∧ s'.errors = s.errors

/-- The operators that `parse_expr` reads from a state on are those that the
parser of statements reads. -/
inductive Fast (r : Rec) : Phase → Expr → State → Prop where
  | stop {phase expr s} : s.peek = .semicolon → Fast r phase expr s
  | assign {phase expr s} : phase.assigns = true → s.peek = .equals → ValueFits r s →
      Fast r phase expr s
  | compound {phase expr s op} : phase.compounds = true → compoundOp s.peek = some op →
      ValueFits r s → Fast r phase expr s
  | link {phase phase' expr expr' s s'} : phase.next (linkAt expr s.rest) = some phase' →
      parsePostfixOp r expr none s = some (.ok (.inl (expr', none)), s') →
      Fast r phase' expr' s' → Fast r phase expr s

/-- How an expression statement ends. -/
inductive End where
  | stop
  | assign (value : Expr)
  | compound (op : CompoundOp) (value : Expr)

/-- The expression that is read. -/
def End.expr : End → Expr → Expr
  | .stop, target => target
  | .assign value, target => .assign target value
  | .compound op value, target => .compoundAssign op target value

/-- The statement that is read. -/
def End.stmt : End → Expr → Stmt
  | .stop, target => .expr target
  | .assign value, target => .assignment target value
  | .compound op value, target => .expr (.compoundAssign op target value)

/-- The statement that an expression and a semicolon are. -/
def stmtOf : Expr → Stmt
  | .assign target value => .assignment target value
  | expr => .expr expr

/-! ## What `parse_expr` reads -/

/-- Tokens that end a statement or an assigned expression. -/
def endsTarget (token : TokenKind) : Bool :=
  token == .semicolon || token == .equals || (compoundOp token).isSome

variable {token : TokenKind}

theorem levelOp_of_endsTarget (ends : endsTarget token = true) (level : Nat) :
    levelOp level token = none := by
  rw [levelOp.eq_def]
  split <;> cases token <;> first | rfl | cases ends

theorem not_as_of_endsTarget (ends : endsTarget token = true) : token ≠ .keyword .As := by
  rintro rfl
  cases ends

section Reference

variable {r : Rec} [OrderlyRec r] {s s' : State} {name : Ident} {expr : Expr}

omit [OrderlyRec r] in
theorem parseUnaryExpr_ident (starts : s.peek = .ident name) :
    parseUnaryExpr r s = parsePostfixExpr r s := by
  simp [parseUnaryExpr, starts, prefixOp]

theorem parseLevel_operand (starts : s.peek = .ident name) (level : Nat)
    (run : parseLevel r level s = some (.ok expr, s')) :
    ∃ operand middle, parsePostfixExpr r s = some (.ok operand, middle) ∧
      middle.errors <+: s'.errors ∧
        (endsTarget middle.peek = true → expr = operand ∧ s' = middle) := by
  induction level generalizing expr s' with
  | zero =>
      rw [parseLevel, parseAsExpr] at run
      rcases ok_of_bind run with ⟨operand, middle, first, later⟩
      rw [parseUnaryExpr_ident starts] at first
      refine ⟨operand, middle, first, Orderly.errors_grow later, ?_⟩
      intro ends
      have noAs := not_as_of_endsTarget ends
      rw [loop_done (b := operand) (t := middle) (by simp [parseAs, noAs])] at later
      cases later
      exact ⟨rfl, rfl⟩
  | succ level ih =>
      rw [parseLevel, parseBinary] at run
      rcases ok_of_bind run with ⟨lhs, middle', first, later⟩
      rcases ih first with ⟨operand, middle, postfix_, errors, atEnd⟩
      refine ⟨operand, middle, postfix_, errors.trans (Orderly.errors_grow later), ?_⟩
      intro ends
      rcases atEnd ends with ⟨rfl, rfl⟩
      have noOp := levelOp_of_endsTarget ends level
      rw [loop_done (b := lhs) (t := middle') (by simp [parseOperator, noOp])] at later
      cases later
      exact ⟨rfl, rfl⟩

/-- What `parse_expr` makes of its first operand. -/
structure Finishes (r : Rec) (operand : Expr) (middle : State) (expr : Expr) (s' : State) :
    Prop where
  errors : middle.errors <+: s'.errors
  semicolon : middle.peek = .semicolon → expr = operand ∧ s' = middle
  equals : middle.peek = .equals →
    ∃ value, r.assignExpr (behind middle) = some (.ok value, s') ∧ expr = .assign operand value
  compound : ∀ op, compoundOp middle.peek = some op →
    ∃ value, r.assignExpr (behind middle) = some (.ok value, s') ∧
      expr = .compoundAssign op operand value

theorem parseTernaryExpr_operand (starts : s.peek = .ident name)
    (run : parseTernaryExpr r s = some (.ok expr, s')) :
    ∃ operand middle, parsePostfixExpr r s = some (.ok operand, middle) ∧
      middle.errors <+: s'.errors ∧
        (endsTarget middle.peek = true → expr = operand ∧ s' = middle) := by
  rw [parseTernaryExpr, parseOrExpr] at run
  rcases ok_of_bind run with ⟨cond, middle', or, question⟩
  rcases parseLevel_operand starts 10 or with ⟨operand, middle, postfix_, errors, atEnd⟩
  refine ⟨operand, middle, postfix_, errors.trans (Orderly.errors_grow question), ?_⟩
  intro ends
  rcases atEnd ends with ⟨rfl, rfl⟩
  have noQuestion : middle'.peek ≠ .question := by
    intro same
    rw [same] at ends
    cases ends
  simp [noQuestion] at question
  exact ⟨question.1.symm, question.2.symm⟩

theorem parseAssignExpr_operand (starts : s.peek = .ident name)
    (run : parseAssignExpr r s = some (.ok expr, s')) :
    ∃ operand middle, parsePostfixExpr r s = some (.ok operand, middle) ∧
      Finishes r operand middle expr s' := by
  rw [parseAssignExpr] at run
  rcases ok_of_bind run with ⟨lhs, middle', ternary, assign⟩
  rcases parseTernaryExpr_operand starts ternary with ⟨operand, middle, postfix_, errors, atEnd⟩
  refine ⟨operand, middle, postfix_, errors.trans (Orderly.errors_grow assign), ?_, ?_, ?_⟩
  · intro semicolon
    rcases atEnd (by rw [semicolon]; rfl) with ⟨rfl, rfl⟩
    simp [parseAssignTail, semicolon, compoundOp] at assign
    exact ⟨assign.1.symm, assign.2.symm⟩
  · intro equals
    rcases atEnd (by rw [equals]; rfl) with ⟨rfl, rfl⟩
    apply ok_of_map (p := r.assignExpr) (f := fun value => Expr.assign lhs value)
    simpa [parseAssignTail, equals] using assign
  · intro op compound
    have noArrow : middle.peek ≠ .fatArrow := by
      intro same
      rw [same] at compound
      cases compound
    have noAssign : middle.peek ≠ .equals := by
      intro same
      rw [same] at compound
      cases compound
    rcases atEnd (by simp [endsTarget, compound]) with ⟨rfl, rfl⟩
    apply ok_of_map (p := r.assignExpr)
      (f := fun value => Expr.compoundAssign op lhs value)
    simpa [parseAssignTail, noArrow, noAssign, compound] using assign

end Reference

variable {middle : State} {e : ParseError} {args : List Expr} {r : Rec} {link : Link} {count : Nat}

section Statement

variable (r : Rec)

/-- `parse_stmt_inner` from a phase on. -/
def readFrom : Phase → Expr → Parse Stmt
  | .name, .ident name => parseIdentStmt r name
  | .name, expr | .called, expr => endExprStmt expr
  | .indexed, expr => do
      parseIndexedStmt r (← parseIndices r expr)
  | .indexedField, expr => do
      if ← check .equals then
        return .assignment expr (← parseAssigned r)
      else
        parseIndexedMembers r expr
  | .indexedMethod, expr => parseIndexedMembers r expr
  | .memberField, expr => do
      if ← check .equals then
        return .assignment expr (← parseAssigned r)
      else
        parseMemberStmt r expr
  | .memberMethod, expr => parseMemberStmt r expr
  | .memberIndexed, expr => do
      parseMemberIndexedStmt r (← parseIndices r expr)
  | .memberIndexedMember, expr => do
      parseMemberIndexedEnd r (← parsePlainMembers r expr)
  | .static, expr => do
      parseStaticStmt r (← parsePlainMembers r expr)

variable {r} {s s' : State} {expr : Expr}

theorem consume_here {kind : TokenKind} (here : s.peek = kind) :
    consume kind s = some (.ok true, behind s) := by
  simp [consume, here]

theorem behind_length (here : s.peek = token) (some_ : token ≠ .eof) :
    (behind s).rest.length < s.rest.length := by
  rcases s with ⟨rest, errors, depth⟩
  cases rest with
  | nil => exact absurd here.symm some_
  | cons first rest => simp [behind]

theorem parseIndex_consumes [OrderlyRec r] : Consumes (parseIndex r) := by
  intro expr expr' s s' run
  rw [parseIndex, bind_of_ok (check_apply _ _)] at run
  split at run
  · next here =>
      have bracket : s.peek = .lBracket := by simpa using here
      have shorter := behind_length bracket (by simp)
      rw [bind_of_ok (bump_apply s)] at run
      exact Nat.lt_of_le_of_lt (Orderly.shrinks run) shorter
  · cases run

theorem parseMember_consumes [OrderlyRec r] : Consumes (parseMember r) := by
  intro expr expr' s s' run
  by_cases here : s.peek = .dot
  · rw [parseMember, bind_of_ok (consume_here here)] at run
    exact Nat.lt_of_le_of_lt (Orderly.shrinks run) (behind_length here (by simp))
  · rw [parseMember, bind_of_ok (consume_of_ne _ here)] at run
    cases run

theorem parsePlainMember_consumes [OrderlyRec r] : Consumes (parsePlainMember r) := by
  intro expr expr' s s' run
  by_cases here : s.peek = .dot
  · rw [parsePlainMember, bind_of_ok (consume_here here)] at run
    exact Nat.lt_of_le_of_lt (Orderly.shrinks run) (behind_length here (by simp))
  · rw [parsePlainMember, bind_of_ok (consume_of_ne _ here)] at run
    cases run

theorem parseStaticMember_consumes [OrderlyRec r] : Consumes (parseStaticMember r) := by
  intro expr expr' s s' run
  by_cases here : s.peek = .colonColon
  · rw [parseStaticMember, bind_of_ok (consume_here here)] at run
    exact Nat.lt_of_le_of_lt (Orderly.shrinks run) (behind_length here (by simp))
  · rw [parseStaticMember, bind_of_ok (consume_of_ne _ here)] at run
    cases run

section Stops

variable (r expr)

theorem parseIndices_stop (noIndex : s.peek ≠ .lBracket) :
    parseIndices r expr s = some (.ok expr, s) := by
  apply loop_done
  simp [parseIndex, noIndex]

theorem parseIndices_next [OrderlyRec r] {index : Expr} (here : s.peek = .lBracket)
    (run : r.expr (behind s) = some (.ok index, middle)) (closed : middle.peek = .rBracket) :
    parseIndices r expr s = parseIndices r (.index expr index) (behind middle) := by
  apply loop_next parseIndex_consumes
  simp [parseIndex, here, run, expect, closed]

theorem parseMembers_stop (noMember : s.peek ≠ .dot) :
    parseMembers r expr s = some (.ok (.inl expr), s) := by
  apply loop_done
  rw [parseMember, bind_of_ok (consume_of_ne _ noMember)]
  rfl

theorem parsePlainMembers_stop (noMember : s.peek ≠ .dot) :
    parsePlainMembers r expr s = some (.ok expr, s) := by
  apply loop_done
  rw [parsePlainMember, bind_of_ok (consume_of_ne _ noMember)]
  rfl

section Dot

variable [OrderlyRec r] (here : s.peek = .dot)

include here

theorem parseMembers_dot (f : Expr ⊕ Stmt → Parse Stmt) :
    (parseMembers r expr >>= f) s = (do
      let field ← parseIdent
      if ← check .lParen then
        parseMembers r (.methodCall expr field (← parseCallArgs r)) >>= f
      else if ← check .equals then
        f (.inr (.assignment (.fieldAccess expr field) (← parseAssigned r)))
      else
        parseMembers r (.fieldAccess expr field) >>= f) (behind s) := by
  rw [bind_apply, parseMembers, loop_apply parseMember_consumes, parseMember, bind_bind,
    bind_of_ok (consume_here here), ← bind_apply]
  simp only [if_true, bind_bind, ite_bind, pure_bind']
  rfl

theorem parsePlainMembers_dot (f : Expr → Parse Stmt) :
    (parsePlainMembers r expr >>= f) s = (do
      let field ← parseIdent
      if ← check .lParen then
        parsePlainMembers r (.methodCall expr field (← parseCallArgs r)) >>= f
      else
        parsePlainMembers r (.fieldAccess expr field) >>= f) (behind s) := by
  rw [bind_apply, parsePlainMembers, loop_apply parsePlainMember_consumes, parsePlainMember, bind_bind,
    bind_of_ok (consume_here here), ← bind_apply]
  simp only [if_true, bind_bind, ite_bind, pure_bind']
  rfl

end Dot

end Stops

/-! ### Phases -/

/-- Tokens that the parser of statements takes in a phase. -/
def Phase.accepts (phase : Phase) (token : TokenKind) : Bool :=
  token == .semicolon || (phase.assigns && token == .equals) ||
    (phase.compounds && (compoundOp token).isSome) ||
    ((phase.next .index).isSome && token == .lBracket) ||
    ((phase.next .call).isSome && token == .lParen) ||
    ((phase.next .field).isSome && token == .dot)

variable {phase phase' : Phase} {name : Ident}

variable (r expr) in
theorem parseStaticStmt_stop (noStatic : s.peek ≠ .colonColon) :
    parseStaticStmt r expr s = endExprStmt expr s := by
  have noMore : loop (parseStaticMember r) expr s = some (.ok expr, s) := by
    apply loop_done
    rw [parseStaticMember, bind_of_ok (consume_of_ne _ noStatic)]
    rfl
  rw [parseStaticStmt, bind_of_ok noMore]

theorem readFrom_end (phase : Phase) (later : phase ≠ .name) (noStatic : s.peek ≠ .colonColon)
    (noMore : s.peek ≠ .semicolon → phase.accepts s.peek = false) :
    readFrom r phase expr s = endExprStmt expr s := by
  have refuses : ∀ accepted, (phase.accepts s.peek = false → accepted = false) →
      (s.peek = .semicolon → accepted = false) → accepted = false := by
    intro accepted rejected atEnd
    by_cases semicolon : s.peek = .semicolon
    · exact atEnd semicolon
    · exact rejected (noMore semicolon)
  have noAssign := refuses (phase.assigns && s.peek == .equals) (by simp +contextual [Phase.accepts])
    (by simp +contextual)
  have noCompound := refuses (phase.compounds && (compoundOp s.peek).isSome)
    (by simp +contextual [Phase.accepts]) (by simp +contextual [compoundOp])
  have noIndex := refuses ((phase.next .index).isSome && s.peek == .lBracket)
    (by simp +contextual [Phase.accepts]) (by simp +contextual)
  have noCall := refuses ((phase.next .call).isSome && s.peek == .lParen)
    (by simp +contextual [Phase.accepts]) (by simp +contextual)
  have noMember := refuses ((phase.next .field).isSome && s.peek == .dot)
    (by simp +contextual [Phase.accepts]) (by simp +contextual)
  cases phase <;>
    simp [Phase.assigns, Phase.compounds, Phase.next] at noAssign noCompound noIndex noCall noMember later
  case called => simp [readFrom]
  case indexed =>
    simp [readFrom, parseIndices_stop _ _ noIndex, parseIndexedStmt, noAssign, noCompound, noCall,
      parseIndexedMembers, parseMembers_stop _ _ noMember]
  case indexedField =>
    simp [readFrom, noAssign, parseIndexedMembers, parseMembers_stop _ _ noMember]
  case indexedMethod => simp [readFrom, parseIndexedMembers, parseMembers_stop _ _ noMember]
  case memberField =>
    simp [readFrom, noAssign, parseMemberStmt, parseMembers_stop _ _ noMember, noIndex]
  case memberMethod => simp [readFrom, parseMemberStmt, parseMembers_stop _ _ noMember, noIndex]
  case memberIndexed =>
    simp [readFrom, parseIndices_stop _ _ noIndex, parseMemberIndexedStmt, parseMemberIndexedEnd,
      parsePlainMembers_stop _ _ noMember, noAssign, noCompound]
  case memberIndexedMember =>
    simp [readFrom, parseMemberIndexedEnd, parsePlainMembers_stop _ _ noMember, noAssign, noCompound]
  case static =>
    simp [readFrom, parsePlainMembers_stop _ _ noMember, parseStaticStmt_stop _ _ noStatic]

theorem readFrom_rejects (phase : Phase) (later : phase ≠ .name) (noStatic : s.peek ≠ .colonColon)
    (rejects : phase.accepts s.peek = false) :
    readFrom r phase expr s = some (.error (.expected .semicolon s.peek), s) := by
  have noEnd : s.peek ≠ .semicolon := by
    intro same
    simp [Phase.accepts, same] at rejects
  rw [readFrom_end phase later noStatic (fun _ => rejects), endExprStmt,
    bind_of_error (expect_of_ne _ noEnd)]

theorem readFrom_semicolon (phase : Phase) (later : phase ≠ .name) (here : s.peek = .semicolon) :
    readFrom r phase expr s = some (.ok (.expr expr), behind s) := by
  rw [readFrom_end phase later (by simp [here]) (absurd here)]
  simp [endExprStmt, expect, here]

theorem readFrom_assign (phase : Phase) (later : phase ≠ .name) (assigns : phase.assigns = true)
    (here : s.peek = .equals) :
    readFrom r phase expr s =
      (parseAssigned r >>= fun value => pure (.assignment expr value)) s := by
  have noIndex := parseIndices_stop r expr (s := s) (by simp [here])
  have noPlain := parsePlainMembers_stop r expr (s := s) (by simp [here])
  cases phase with
  | name => exact absurd rfl later
  | indexed => simp [readFrom, noIndex, parseIndexedStmt, here]
  | indexedField | memberField => simp [readFrom, here]
  | memberIndexed => simp [readFrom, noIndex, parseMemberIndexedStmt, here]
  | memberIndexedMember => simp [readFrom, parseMemberIndexedEnd, noPlain, here]
  | _ => cases assigns

theorem readFrom_compound (phase : Phase) (later : phase ≠ .name)
    (compounds : phase.compounds = true) {op : CompoundOp} (here : compoundOp s.peek = some op) :
    readFrom r phase expr s =
      (parseAssigned r >>= fun value => pure (.expr (.compoundAssign op expr value))) s := by
  have differs : ∀ token, compoundOp token = none → s.peek ≠ token := by
    intro token none_ same
    rw [same, none_] at here
    cases here
  have noIndex := parseIndices_stop r expr (s := s) (differs _ rfl)
  have noPlain := parsePlainMembers_stop r expr (s := s) (differs _ rfl)
  cases phase with
  | name => exact absurd rfl later
  | indexed => simp [readFrom, noIndex, parseIndexedStmt, differs .equals rfl, here]
  | memberIndexed =>
      simp [readFrom, noIndex, parseMemberIndexedStmt, parseMemberIndexedEnd, noPlain,
        differs .equals rfl, here]
  | memberIndexedMember =>
      simp [readFrom, parseMemberIndexedEnd, noPlain, differs .equals rfl, here]
  | _ => cases compounds

theorem readFrom_index [OrderlyRec r] (later : phase ≠ .name)
    (next : phase.next .index = some phase') {index : Expr} (here : s.peek = .lBracket)
    (run : r.expr (behind s) = some (.ok index, middle)) (closed : middle.peek = .rBracket) :
    readFrom r phase expr s = readFrom r phase' (.index expr index) (behind middle) := by
  have indices := parseIndices_next r expr here run closed
  have noMember := parseMembers_stop r expr (s := s) (by simp [here])
  cases phase with
  | name => exact absurd rfl later
  | indexed | memberIndexed =>
      cases next
      simp [readFrom, indices]
  | memberField | memberMethod =>
      cases next
      simp [readFrom, parseMemberStmt, noMember, indices, here]
  | _ => cases next

theorem readFrom_call (later : phase ≠ .name) (next : phase.next .call = some phase')
    (here : s.peek = .lParen) (run : parseArgs r (behind s) = some (.ok args, s')) :
    readFrom r phase expr s = readFrom r phase' (.call expr args) s' := by
  have noIndex := parseIndices_stop r expr (s := s) (by simp [here])
  cases phase with
  | name => exact absurd rfl later
  | indexed =>
      cases next
      simp [readFrom, noIndex, parseIndexedStmt, parseCallArgs, run, here, compoundOp]
  | _ => cases next

theorem readFrom_dot [OrderlyRec r] {field method : Phase} (later : phase ≠ .name)
    (isField : phase.next .field = some field) (isMethod : phase.next .method = some method)
    (here : s.peek = .dot) :
    readFrom r phase expr s = (do
      let name ← parseIdent
      if ← check .lParen then
        readFrom r method (.methodCall expr name (← parseCallArgs r))
      else
        readFrom r field (.fieldAccess expr name)) (behind s) := by
  have noIndex := parseIndices_stop r expr (s := s) (by simp [here])
  have indexed : parseIndexedMembers r expr s = _ := parseMembers_dot r expr here _
  have member : parseMemberStmt r expr s = _ := parseMembers_dot r expr here _
  have plain := parsePlainMembers_dot r expr here
  cases phase with
  | name => exact absurd rfl later
  | called => cases isField
  | indexed =>
      cases isField
      cases isMethod
      have start : readFrom r .indexed expr s = parseIndexedMembers r expr s := by
        simp [readFrom, noIndex, parseIndexedStmt, here, compoundOp]
      exact start.trans indexed
  | indexedField =>
      cases isField
      cases isMethod
      have start : readFrom r .indexedField expr s = parseIndexedMembers r expr s := by
        simp [readFrom, here]
      exact start.trans indexed
  | indexedMethod =>
      cases isField
      cases isMethod
      exact indexed
  | memberField =>
      cases isField
      cases isMethod
      have start : readFrom r .memberField expr s = parseMemberStmt r expr s := by
        simp [readFrom, here]
      exact start.trans member
  | memberMethod =>
      cases isField
      cases isMethod
      exact member
  | memberIndexed =>
      cases isField
      cases isMethod
      have start : readFrom r .memberIndexed expr s = readFrom r .memberIndexedMember expr s := by
        simp [readFrom, noIndex, parseMemberIndexedStmt, here]
      exact start.trans (plain _)
  | memberIndexedMember | static =>
      cases isField
      cases isMethod
      exact plain _

theorem next_member (phase : Phase) :
    (phase.next .field).isSome = (phase.next .method).isSome := by
  cases phase <;> rfl

theorem readFrom_method [OrderlyRec r] (later : phase ≠ .name)
    (next : phase.next .method = some phase') (here : s.peek = .dot)
    (named : parseIdent (behind s) = some (.ok name, behind (behind s)))
    (paren : (behind (behind s)).peek = .lParen)
    (run : parseArgs r (behind (behind (behind s))) = some (.ok args, s')) :
    readFrom r phase expr s = readFrom r phase' (.methodCall expr name args) s' := by
  rcases Option.isSome_iff_exists.mp ((next_member phase).trans (by simp [next])) with
    ⟨field, isField⟩
  rw [readFrom_dot later isField next here, bind_of_ok named]
  simp [paren, parseCallArgs, run]

theorem readFrom_field [OrderlyRec r] (later : phase ≠ .name)
    (next : phase.next .field = some phase') (here : s.peek = .dot)
    (named : parseIdent (behind s) = some (.ok name, behind (behind s)))
    (noParen : (behind (behind s)).peek ≠ .lParen) :
    readFrom r phase expr s = readFrom r phase' (.fieldAccess expr name) (behind (behind s)) := by
  rcases Option.isSome_iff_exists.mp ((next_member phase).symm.trans (by simp [next])) with
    ⟨method, isMethod⟩
  rw [readFrom_dot later next isMethod here, bind_of_ok named]
  simp [noParen]

theorem readFrom_unnamed [OrderlyRec r] (later : phase ≠ .name)
    (next : (phase.next .field).isSome = true) (here : s.peek = .dot)
    (unnamed : parseIdent (behind s) = some (.error e, behind s)) :
    readFrom r phase expr s = some (.error e, behind s) := by
  rcases Option.isSome_iff_exists.mp next with ⟨field, isField⟩
  rcases Option.isSome_iff_exists.mp ((next_member phase).symm.trans next) with ⟨method, isMethod⟩
  rw [readFrom_dot later isField isMethod here, bind_of_error unnamed]

theorem keywordMethodName_of_ident {keyword : Keyword} (ident : keywordIdent keyword = some name) :
    keywordMethodName keyword = some name := by
  cases keyword <;> first | cases ident; rfl | cases ident

theorem parseIdent_of_member (member : isMemberName s.peek = true) :
    ∃ name, parseIdent s = some (.ok name, behind s) ∧
      parseMethodName s = some (.ok name, behind s) := by
  cases token : s.peek with
  | ident name => exact ⟨name, by simp [parseIdent, token], by simp [parseMethodName, token]⟩
  | keyword keyword =>
      cases ident : keywordIdent keyword with
      | none => simp [isMemberName, token, ident] at member
      | some name =>
          exact ⟨name, by simp [parseIdent, token, ident],
            by simp [parseMethodName, token, keywordMethodName_of_ident ident]⟩
  | _ => simp [isMemberName, token] at member

/-- A member that `parse_expr` reads under another name is an error in a
statement. -/
theorem parseIdent_of_other (other : isMemberName s.peek = false) (named : s.peek ≠ .underscore) :
    parseIdent s = some (.error (.message "expected identifier"), s) := by
  cases token : s.peek with
  | ident name => simp [isMemberName, token] at other
  | keyword keyword =>
      cases ident : keywordIdent keyword with
      | none => simp [parseIdent, token, ident]
      | some name => simp [isMemberName, token, ident] at other
  | underscore => exact absurd token named
  | _ => simp [parseIdent, token]

theorem parseDotPostfix_named {expr' : Expr}
    (run : parseDotPostfix r expr s = some (.ok expr', s')) : s.peek ≠ .underscore := by
  intro same
  simp [parseDotPostfix, parseMethodName, same] at run

theorem parseMethodName_named (run : parseMethodName s = some (.ok name, s')) :
    s.peek ≠ .underscore := by
  intro same
  simp [parseMethodName, same] at run

/-- Expressions that are targets of an assignment or a conversion. -/
def isAssign : Expr → Bool
  | .assign .. => true
  | _ => false

/-- The statement that is read from a state on, compared with what `parse_expr`
reads there.  The expression read so far stands in the same place in both. -/
def Agrees (r : Rec) (phase : Phase) (target : Expr) (s : State) (expr : Expr) (s' : State) :
    Prop :=
  (Fast r phase target s →
    ∃ (context : Expr → Expr) (close : End), Function.Injective context ∧
      (∀ x, isAssign x = false → isAssign (context x) = false) ∧
      expr = close.expr (context target) ∧
      ∀ x, readFrom r phase x s = some (.ok (close.stmt (context x)), behind s')) ∧
  (¬ Fast r phase target s → ∀ x stmt s'',
    readFrom r phase x s = some (.ok stmt, s'') → s''.errors ≠ s.errors)

variable {target : Expr} {s₁ : State}

theorem next_other (phase : Phase) : phase.next .other = none := by
  cases phase <;> rfl

theorem agrees_of_error (notFast : ¬ Fast r phase target s)
    (fails : ∀ x, ∃ e s'', readFrom r phase x s = some (.error e, s'')) :
    Agrees r phase target s expr s' := by
  refine ⟨fun fast => absurd fast notFast, ?_⟩
  intro _ x stmt s'' run
  rcases fails x with ⟨e, s₂, failed⟩
  rw [failed] at run
  cases run

theorem fast_iff_of_link {target' : Expr} (next : phase.next (linkAt target s.rest) = some phase')
    (link : parsePostfixOp r target none s = some (.ok (.inl (target', none)), s₁))
    (noEnd : endsTarget s.peek = false) : Fast r phase target s ↔ Fast r phase' target' s₁ := by
  constructor
  · intro fast
    cases fast with
    | stop here | assign _ here | compound _ here => simp [endsTarget, here] at noEnd
    | link next' link' rest =>
        rw [next] at next'
        rw [link] at link'
        cases next'
        cases link'
        exact rest
  · exact Fast.link next link

theorem agrees_of_link {wrap : Expr → Expr} (next : phase.next (linkAt target s.rest) = some phase')
    (link : parsePostfixOp r target none s = some (.ok (.inl (wrap target, none)), s₁))
    (noEnd : endsTarget s.peek = false) (clean : s₁.errors = s.errors)
    (injective : Function.Injective wrap) (noAssign : ∀ x, isAssign (wrap x) = false)
    (same : ∀ x, readFrom r phase x s = readFrom r phase' (wrap x) s₁)
    (agrees : Agrees r phase' (wrap target) s₁ expr s') : Agrees r phase target s expr s' := by
  have fast_iff := fast_iff_of_link next link noEnd
  constructor
  · intro fast
    rcases agrees.1 (fast_iff.mp fast) with ⟨context, close, contextInjective, keeps, rfl, reads⟩
    refine ⟨context ∘ wrap, close, contextInjective.comp injective, ?_, rfl, ?_⟩
    · intro x _
      exact keeps (wrap x) (noAssign x)
    · intro x
      rw [same x]
      exact reads (wrap x)
  · intro notFast x stmt s'' run
    rw [same x] at run
    rw [← clean]
    exact agrees.2 (fun fast => notFast (fast_iff.mpr fast)) (wrap x) stmt s'' run

section Value

variable {tokenize : String → Option (List TokenKind)} {fuel : Nat} {value : Expr}

theorem parseAssigned_of_fits (fits : ValueFits (knot tokenize fuel) s)
    (run : (knot tokenize fuel).assignExpr (behind s) = some (.ok value, s'))
    (end_ : s'.peek = .semicolon) :
    parseAssigned (knot tokenize fuel) s = some (.ok value, behind s') := by
  cases fuel with
  | zero => cases run
  | succ fuel =>
      rcases fits with ⟨value', s₁, deep, clean⟩
      rcases Orderly.nested_run deep with ⟨_, failed⟩ | ⟨_, middle, inner, rfl⟩
      · cases failed
      · have depth : middle.depth = (behind s).depth + 1 := Orderly.depth_eq inner
        have lifted := Orderly.lifts inner clean
        have same : (knot tokenize (fuel + 1)).assignExpr (behind s) = _ := lifted
        rw [run] at same
        cases same
        simp [parseAssigned, deep, depth, expect, State.peek] at end_ ⊢
        simp [end_, behind]

theorem parseAssigned_of_not_fits (notFits : ¬ ValueFits r s) {s'' : State}
    (run : parseAssigned r s = some (.ok value, s'')) : s''.errors ≠ s.errors := by
  intro clean
  apply notFits
  rw [parseAssigned, bind_of_ok (bump_apply s)] at run
  rcases ok_of_bind run with ⟨value', middle, inner, stop⟩
  refine ⟨value', middle, inner, ?_⟩
  rcases ok_of_bind stop with ⟨_, last, expected, done⟩
  cases done
  by_cases here : middle.peek = .semicolon
  · simp [expect, here] at expected
    rw [← clean, ← expected]
    rfl
  · rw [expect_of_ne _ here] at expected
    cases expected

theorem agrees_of_value (close : Expr → End)
    (fast_iff : Fast (knot tokenize fuel) phase target s ↔ ValueFits (knot tokenize fuel) s)
    (same : ∀ x, readFrom (knot tokenize fuel) phase x s = (parseAssigned (knot tokenize fuel) >>= fun value => pure ((close value).stmt x)) s)
    (run : (knot tokenize fuel).assignExpr (behind s) = some (.ok value, s'))
    (end_ : s'.peek = .semicolon) :
    Agrees (knot tokenize fuel) phase target s ((close value).expr target) s' := by
  constructor
  · intro fast
    have assigned := parseAssigned_of_fits (fast_iff.mp fast) run end_
    refine ⟨id, close value, Function.injective_id, fun _ keeps => keeps, rfl, ?_⟩
    intro x
    rw [same x, bind_of_ok assigned]
    rfl
  · intro notFast x stmt s'' read
    rw [same x] at read
    rcases ok_of_map read with ⟨value', assigned, _⟩
    exact parseAssigned_of_not_fits (fun fits => notFast (fast_iff.mpr fits)) assigned

end Value

theorem linkAt_of_peek (target : Expr) (here : s.peek = token)
    (noLink : token ≠ .lBracket ∧ token ≠ .lParen ∧ token ≠ .dot ∧ token ≠ .colonColon) :
    linkAt target s.rest = .other := by
  rcases s with ⟨rest, errors, depth⟩
  cases rest with
  | nil => rfl
  | cons first rest =>
      cases here
      cases first <;> first | rfl | simp at noLink

theorem not_fast_of_other (noEnd : s.peek ≠ .semicolon)
    (noAssign : phase.assigns = true → s.peek ≠ .equals)
    (noCompound : phase.compounds = true → compoundOp s.peek = none)
    (noLink : phase.next (linkAt target s.rest) = none) : ¬ Fast r phase target s := by
  intro fast
  cases fast with
  | stop here => exact noEnd here
  | assign assigns here => exact noAssign assigns here
  | compound compounds here =>
      rw [noCompound compounds] at here
      cases here
  | link next =>
      rw [noLink] at next
      cases next

theorem agrees_of_rejected (later : phase ≠ .name) (noStatic : s.peek ≠ .colonColon)
    (rejects : phase.accepts s.peek = false) (noLink : phase.next (linkAt target s.rest) = none) :
    Agrees r phase target s expr s' := by
  apply agrees_of_error
  · simp [Phase.accepts] at rejects
    apply not_fast_of_other rejects.1.1.1.1.1
    · intro assigns here
      exact rejects.1.1.1.1.2 assigns here
    · intro compounds
      simpa using rejects.1.1.1.2 compounds
    · exact noLink
  · intro x
    exact ⟨_, _, readFrom_rejects phase later noStatic rejects⟩

theorem fast_iff_of_value (noEnd : s.peek ≠ .semicolon) (noLink : linkAt target s.rest = .other)
    (fits : ValueFits r s → Fast r phase target s) : Fast r phase target s ↔ ValueFits r s := by
  constructor
  · intro fast
    cases fast with
    | stop here => exact absurd here noEnd
    | assign _ _ fits => exact fits
    | compound _ _ fits => exact fits
    | link next => simp [noLink, next_other] at next
  · exact fits

theorem agrees_of_end {tokenize : String → Option (List TokenKind)} {fuel : Nat}
    (later : phase ≠ .name)
    (noLink : s.peek ≠ .lBracket ∧ s.peek ≠ .lParen ∧ s.peek ≠ .dot ∧ s.peek ≠ .colonColon)
    (finishes : Finishes (knot tokenize fuel) target s expr s') (end_ : s'.peek = .semicolon) :
    Agrees (knot tokenize fuel) phase target s expr s' := by
  have other := linkAt_of_peek target rfl noLink
  by_cases semicolon : s.peek = .semicolon
  · rcases finishes.semicolon semicolon with ⟨rfl, rfl⟩
    constructor
    · intro _
      refine ⟨id, .stop, Function.injective_id, fun _ keeps => keeps, rfl, ?_⟩
      intro x
      exact readFrom_semicolon phase later semicolon
    · intro notFast
      exact absurd (.stop semicolon) notFast
  · by_cases assign : phase.assigns = true ∧ s.peek = .equals
    · rcases finishes.equals assign.2 with ⟨value, run, rfl⟩
      have fast_iff := fast_iff_of_value (r := knot tokenize fuel) semicolon other
        (Fast.assign assign.1 assign.2)
      exact agrees_of_value .assign fast_iff
        (fun x => readFrom_assign phase later assign.1 assign.2) run end_
    · by_cases compound : phase.compounds = true ∧ ∃ op, compoundOp s.peek = some op
      · rcases compound with ⟨compounds, op, here⟩
        rcases finishes.compound op here with ⟨value, run, rfl⟩
        have fast_iff := fast_iff_of_value (r := knot tokenize fuel) semicolon other
          (Fast.compound compounds here)
        exact agrees_of_value (.compound op) fast_iff
          (fun x => readFrom_compound phase later compounds here) run end_
      · have noCompound : phase.compounds = true → compoundOp s.peek = none := by
          intro compounds
          cases here : compoundOp s.peek with
          | none => rfl
          | some op => exact absurd ⟨compounds, op, here⟩ compound
        apply agrees_of_rejected later noLink.2.2.2
        · simp [Phase.accepts, semicolon, noLink]
          exact ⟨fun assigns here => assign ⟨assigns, here⟩, noCompound⟩
        · rw [other, next_other]

section Operator

variable {r : Rec} {target : Expr}

theorem isGenericTypeStaticCall_of_peek (noLess : s.peek ≠ .less) :
    isGenericTypeStaticCall s.rest = false := by
  rcases s with ⟨rest, errors, depth⟩
  cases rest with
  | nil => rfl
  | cons first rest => cases first <;> first | rfl | exact absurd rfl noLess

theorem parsePostfixOp_at_index (here : s.peek = .lBracket) :
    parsePostfixOp r target none s =
      (r.expr >>= fun index => expect .rBracket >>= fun _ =>
        pure (.inl (.index target index, none))) (behind s) := by
  simp [parsePostfixOp, here, isGenericTypeStaticCall_of_peek (s := s)]

theorem parsePostfixOp_at_call (here : s.peek = .lParen) :
    parsePostfixOp r target none s =
      (parseArgs r >>= fun args => pure (.inl (.call target args, none))) (behind s) := by
  simp [parsePostfixOp, here, isGenericTypeStaticCall_of_peek (s := s)]

theorem parsePostfixOp_at_dot (here : s.peek = .dot) :
    parsePostfixOp r target none s =
      (parseDotPostfix r target >>= fun expr => pure (.inl (expr, none))) (behind s) := by
  simp [parsePostfixOp, here]

theorem parsePostfixOp_at_static (here : s.peek = .colonColon) :
    parsePostfixOp r target none s =
      (parseColonPostfix r target none >>= fun expr => pure (.inl (expr, none))) s := by
  simp [parsePostfixOp, here]

/-- At other tokens the chain ends, or goes on in a way that statements do not
know. -/
theorem parsePostfixOp_at_other
    (noLink : s.peek ≠ .lBracket ∧ s.peek ≠ .lParen ∧ s.peek ≠ .dot ∧ s.peek ≠ .colonColon)
    (known : s.peek ≠ .less ∧ s.peek ≠ .dotDot ∧ s.peek ≠ .dotDotDot) :
    parsePostfixOp r target none s = some (.ok (.inr target), s) := by
  simp [parsePostfixOp, noLink, known, isGenericTypeStaticCall_of_peek (s := s)]

/-- Whether the member behind a dot, the current token, is that of a type. -/
def isTypeMember (target : Expr) (s : State) : Bool :=
  isTypeAccess target &&
    (hasNamedArgs (behind (behind s)).rest || (behind (behind s)).peek != .lParen)

theorem parseDotPostfix_method (member : isMemberName s.peek = true)
    (named : parseMethodName s = some (.ok name, behind s))
    (noType : (isTypeAccess target && hasNamedArgs (behind s).rest) = false)
    (paren : (behind s).peek = .lParen) : parseDotPostfix r target s =
      (parseArgs r >>= fun args => pure (.methodCall target name args)) (behind (behind s)) := by
  have noTypeArgs : isGenericMethodCall (behind s).rest = false := by
    cases rest : (behind s).rest with
    | nil => rfl
    | cons first rest' =>
        rw [State.peek, rest] at paren
        cases paren
        rfl
  cases token : s.peek with
  | ident ident | keyword keyword => simp [parseDotPostfix, token, named, noType, noTypeArgs, paren]
  | _ => simp [isMemberName, token] at member

theorem parseDotPostfix_field (member : isMemberName s.peek = true)
    (named : parseMethodName s = some (.ok name, behind s)) (noType : isTypeAccess target = false)
    (noParen : (behind s).peek ≠ .lParen) (noTypeArgs : isGenericMethodCall (behind s).rest = false) :
    parseDotPostfix r target s = some (.ok (.fieldAccess target name), behind s) := by
  cases token : s.peek with
  | ident ident | keyword keyword =>
      simp [parseDotPostfix, token, named, noType, noTypeArgs, noParen]
  | _ => simp [isMemberName, token] at member

theorem peek_of_isGenericMethodCall (typeArgs : isGenericMethodCall s.rest = true) :
    s.peek = .less := by
  rcases s with ⟨rest, errors, depth⟩
  cases rest with
  | nil => cases typeArgs
  | cons first rest => cases first <;> first | rfl | cases typeArgs

end Operator

section Links

variable {tokenize : String → Option (List TokenKind)} {fuel : Nat}

theorem memberLink_of_other (here : s.peek = .dot) (other : isMemberName (behind s).peek = false) :
    linkAt target s.rest = .other := by
  rcases s with ⟨rest, errors, depth⟩
  cases rest with
  | nil => cases here
  | cons first rest =>
      cases here
      cases rest with
      | nil => rfl
      | cons name rest =>
          have same : isMemberName name = false := other
          simp [linkAt, memberLink, same]

theorem linkAt_index (here : s.peek = .lBracket) : linkAt target s.rest = .index := by
  rcases s with ⟨rest, errors, depth⟩
  cases rest with
  | nil => cases here
  | cons first rest =>
      cases here
      rfl

theorem linkAt_call (here : s.peek = .lParen) : linkAt target s.rest = .call := by
  rcases s with ⟨rest, errors, depth⟩
  cases rest with
  | nil => cases here
  | cons first rest =>
      cases here
      rfl

section Member

variable {target : Expr} (here : s.peek = .dot) (member : isMemberName (behind s).peek = true)

include here member

theorem linkAt_member
    (same : ∀ rest, (behind (behind s)).rest = rest → (if rest.head? == some .lParen then if isTypeAccess target && hasNamedArgs rest then Link.other else .method else if isTypeAccess target || isGenericMethodCall rest then .other else .field) = link) :
    linkAt target s.rest = link := by
  rcases s with ⟨rest, errors, depth⟩
  cases rest with
  | nil => cases here
  | cons first rest =>
      cases here
      cases rest with
      | nil => cases member
      | cons name rest =>
          have named : isMemberName name = true := member
          simpa [linkAt, memberLink, named] using same rest rfl

theorem linkAt_method (paren : (behind (behind s)).peek = .lParen)
    (noType : (isTypeAccess target && hasNamedArgs (behind (behind s)).rest) = false) :
    linkAt target s.rest = .method := by
  apply linkAt_member here member
  rintro rest rfl
  cases tokens : (behind (behind s)).rest with
  | nil => simp [State.peek, tokens] at paren
  | cons first rest =>
      have same : first = .lParen := by simpa [State.peek, tokens] using paren
      rw [tokens, same] at noType
      simp [same, noType]

theorem linkAt_typeArgs (typeArgs : isGenericMethodCall (behind (behind s)).rest = true) :
    linkAt target s.rest = .other := by
  apply linkAt_member here member
  rintro rest rfl
  have less := peek_of_isGenericMethodCall typeArgs
  cases tokens : (behind (behind s)).rest with
  | nil => simp [State.peek, tokens] at less
  | cons first rest =>
      have same : first = .less := by simpa [State.peek, tokens] using less
      rw [tokens, same] at typeArgs
      simp [same, typeArgs]

theorem linkAt_field (noType : isTypeAccess target = false)
    (noParen : (behind (behind s)).peek ≠ .lParen)
    (noTypeArgs : isGenericMethodCall (behind (behind s)).rest = false) :
    linkAt target s.rest = .field := by
  apply linkAt_member here member
  rintro rest rfl
  cases tokens : (behind (behind s)).rest with
  | nil =>
      rw [tokens] at noTypeArgs
      simp [noType, noTypeArgs]
  | cons first rest =>
      have differs : first ≠ .lParen := by simpa [State.peek, tokens] using noParen
      rw [tokens] at noTypeArgs
      simp [differs, noType, noTypeArgs]

theorem linkAt_typeMember (type : isTypeMember target s = true) :
    linkAt target s.rest = .other := by
  apply linkAt_member here member
  rintro rest rfl
  simp [isTypeMember] at type
  rcases type with ⟨access, named | noParen⟩
  · simp [access, named]
  · have differs : (behind (behind s)).rest.head? ≠ some .lParen := by
      intro same
      apply noParen
      simp [State.peek, List.headD_eq_head?_getD, same]
    simp [access, differs]

end Member

theorem linkAt_dot (target : Expr) (here : s.peek = .dot) :
    linkAt target s.rest = .field ∨ linkAt target s.rest = .method ∨
      linkAt target s.rest = .other := by
  rcases s with ⟨rest, errors, depth⟩
  match rest, here with
  | [.dot], _ => exact .inr (.inr rfl)
  | .dot :: name :: rest, _ =>
      simp only [linkAt, memberLink]
      grind

theorem linkAt_static (target : Expr) (here : s.peek = .colonColon) :
    linkAt target s.rest =
      if isMemberName (behind s).peek && !isGenericMethodCall (behind (behind s)).rest then .static
      else .other := by
  rcases s with ⟨rest, errors, depth⟩
  match rest, here with
  | [.colonColon], _ => rfl
  | .colonColon :: name :: rest, _ => rfl

theorem linkAt_noMember (target : Expr) (noDot : s.peek ≠ .dot) (noStatic : s.peek ≠ .colonColon) :
    linkAt target s.rest = .index ∨ linkAt target s.rest = .call ∨
      linkAt target s.rest = .other := by
  by_cases bracket : s.peek = .lBracket
  · exact .inl (linkAt_index bracket)
  by_cases paren : s.peek = .lParen
  · exact .inr (.inl (linkAt_call paren))
  exact .inr (.inr (linkAt_of_peek target rfl ⟨bracket, paren, noDot, noStatic⟩))

end Links

/-! ### Chains -/

section Chain

variable {tokenize : String → Option (List TokenKind)} {fuel : Nat} {target operand : Expr}
  {middle : State}

/-- What `parse_expr` makes of a chain of operators that starts with a target. -/
structure Reads (tokenize : String → Option (List TokenKind)) (fuel count : Nat) (target : Expr)
    (s : State) (expr : Expr) (s' : State) : Prop where
  chain : ∃ operand middle,
    parsePostfixChain (knot tokenize fuel) count target none s = some (.ok operand, middle) ∧
      Finishes (knot tokenize fuel) operand middle expr s'
  end_ : s'.peek = .semicolon
  clean : s'.errors = s.errors

theorem Reads.next {count : Nat} {target' : Expr} {s₁ : State}
    (reads : Reads tokenize fuel (count + 1) target s expr s')
    (link : parsePostfixOp (knot tokenize fuel) target none s =
      some (.ok (.inl (target', none)), s₁)) :
    s₁.errors = s.errors ∧ Reads tokenize fuel count target' s₁ expr s' := by
  rcases reads.chain with ⟨operand, middle, chain, finishes⟩
  rw [parsePostfixChain, bind_of_ok link] at chain
  have first := Orderly.errors_grow link
  have later := (Orderly.errors_grow chain).trans finishes.errors
  have same : s₁.errors = s.errors := by
    rw [reads.clean] at later
    exact later.eq_of_length_le first.length_le
  refine ⟨same, ⟨operand, middle, chain, finishes⟩, reads.end_, ?_⟩
  rw [reads.clean, same]

theorem agrees_of_next (wrap : Expr → Expr) (later : phase ≠ .name)
    (reads : Reads tokenize fuel (count + 1) target s expr s')
    (linked : linkAt target s.rest = link) (noEnd : endsTarget s.peek = false)
    (noStatic : s.peek ≠ .colonColon)
    (rejected : phase.next link = none → phase.accepts s.peek = false)
    (run : parsePostfixOp (knot tokenize fuel) target none s = some (.ok (.inl (wrap target, none)), s₁))
    (injective : Function.Injective wrap) (noAssign : ∀ x, isAssign (wrap x) = false)
    (same : ∀ phase', phase.next link = some phase' → ∀ x, readFrom (knot tokenize fuel) phase x s = readFrom (knot tokenize fuel) phase' (wrap x) s₁)
    (agrees : ∀ phase', phase.next link = some phase' → Reads tokenize fuel count (wrap target) s₁ expr s' → Agrees (knot tokenize fuel) phase' (wrap target) s₁ expr s') :
    Agrees (knot tokenize fuel) phase target s expr s' := by
  rcases reads.next run with ⟨clean, reads'⟩
  subst linked
  cases next : phase.next (linkAt target s.rest) with
  | none => exact agrees_of_rejected later noStatic (rejected next) next
  | some phase' =>
      exact agrees_of_link next run noEnd clean injective noAssign (same phase' next)
        (agrees phase' next reads')

theorem next_ne_name (next : phase.next link = some phase') : phase' ≠ .name := by
  cases phase <;> cases link <;> cases next <;> simp

/-- The statement agrees with `parse_expr` on chains of `count` operators. -/
def AgreesOn (tokenize : String → Option (List TokenKind)) (fuel count : Nat) : Prop :=
  ∀ ⦃phase : Phase⦄ ⦃target : Expr⦄ ⦃s : State⦄ ⦃expr : Expr⦄ ⦃s' : State⦄, phase ≠ .name →
    (∀ name, target ≠ .ident name) → Reads tokenize fuel count target s expr s' →
      Agrees (knot tokenize fuel) phase target s expr s'

section Step

variable {count : Nat} {phase : Phase} (shorter : AgreesOn tokenize fuel count)
  (later : phase ≠ .name) (reads : Reads tokenize fuel (count + 1) target s expr s')

include shorter later reads

theorem agrees_at_index {link : Expr × Option (List Ty) ⊕ Expr} (here : s.peek = .lBracket)
    (op : parsePostfixOp (knot tokenize fuel) target none s = some (.ok link, s₁)) :
    Agrees (knot tokenize fuel) phase target s expr s' := by
  have run := op
  rw [parsePostfixOp_at_index here] at op
  rcases ok_of_bind op with ⟨index, inner, indexRun, closing⟩
  rcases ok_of_bind closing with ⟨_, last, closed, done⟩
  cases done
  have closes : inner.peek = .rBracket ∧ s₁ = behind inner := by
    by_cases bracket : inner.peek = .rBracket
    · simp [expect, bracket] at closed
      exact ⟨bracket, closed.symm⟩
    · rw [expect_of_ne _ bracket] at closed
      cases closed
  rcases closes with ⟨bracket, rfl⟩
  have linked : linkAt target s.rest = .index := linkAt_index here
  apply agrees_of_next (fun x => .index x index) later reads linked (by rw [here]; rfl)
    (by simp [here]) _ run
  · intro x y same
    cases same
    rfl
  · intro x
    rfl
  · intro phase' next x
    exact readFrom_index later next here indexRun bracket
  · intro phase' next reads'
    exact shorter (next_ne_name next) (by simp) reads'
  · intro next
    simp [Phase.accepts, here, next, compoundOp]

theorem agrees_at_call {link : Expr × Option (List Ty) ⊕ Expr} (here : s.peek = .lParen)
    (op : parsePostfixOp (knot tokenize fuel) target none s = some (.ok link, s₁)) :
    Agrees (knot tokenize fuel) phase target s expr s' := by
  have run := op
  rw [parsePostfixOp_at_call here] at op
  rcases ok_of_map op with ⟨args, argsRun, rfl⟩
  have linked : linkAt target s.rest = .call := linkAt_call here
  apply agrees_of_next (fun x => .call x args) later reads linked (by rw [here]; rfl)
    (by simp [here]) _ run
  · intro x y same
    cases same
    rfl
  · intro x
    rfl
  · intro phase' next x
    exact readFrom_call later next here argsRun
  · intro phase' next reads'
    exact shorter (next_ne_name next) (by simp) reads'
  · intro next
    simp [Phase.accepts, here, next, compoundOp]

omit shorter reads in
theorem agrees_at_unknown {r : Rec} {target : Expr} (here : s.peek = .dot)
    (linked : linkAt target s.rest = .other)
    (fails : (phase.next .field).isSome = true → ∀ x, ∃ e s'',
      readFrom r phase x s = some (.error e, s'')) :
    Agrees r phase target s expr s' := by
  have noLink : phase.next (linkAt target s.rest) = none := by rw [linked, next_other]
  cases next : phase.next .field with
  | none =>
      apply agrees_of_rejected later (by simp [here]) _ noLink
      simp [Phase.accepts, here, next, compoundOp]
  | some phase' =>
      apply agrees_of_error _ (fails (by simp [next]))
      exact not_fast_of_other (by simp [here]) (by simp [here]) (by simp [here, compoundOp]) noLink

theorem agrees_at_dot {link : Expr × Option (List Ty) ⊕ Expr}
    (noType : isTypeMember target s = false) (here : s.peek = .dot)
    (op : parsePostfixOp (knot tokenize fuel) target none s = some (.ok link, s₁)) :
    Agrees (knot tokenize fuel) phase target s expr s' := by
  have run := op
  rw [parsePostfixOp_at_dot here] at op
  rcases ok_of_map op with ⟨target', dotRun, rfl⟩
  have rejected : ∀ link, (link = .field ∨ link = .method) → phase.next link = none →
      phase.accepts s.peek = false := by
    intro link known next
    have noField : phase.next .field = none := by
      rcases known with rfl | rfl
      · exact next
      · simpa [next] using next_member phase
    simp [Phase.accepts, here, noField, compoundOp]
  cases member : isMemberName (behind s).peek with
  | false =>
      apply agrees_at_unknown later here (memberLink_of_other here member)
      intro next x
      exact ⟨_, _, readFrom_unnamed later next here (parseIdent_of_other member (parseDotPostfix_named dotRun))⟩
  | true =>
      rcases parseIdent_of_member member with ⟨name, ident, method⟩
      by_cases paren : (behind (behind s)).peek = .lParen
      · have noNamed : (isTypeAccess target && hasNamedArgs (behind (behind s)).rest) = false := by
          simpa [isTypeMember, paren] using noType
        rw [parseDotPostfix_method member method noNamed paren] at dotRun
        rcases ok_of_map dotRun with ⟨args, argsRun, rfl⟩
        apply agrees_of_next (fun x => .methodCall x name args) later reads
          (linkAt_method here member paren noNamed) (by rw [here]; rfl) (by simp [here])
          (rejected _ (.inr rfl)) run
        · intro x y same
          cases same
          rfl
        · intro x
          rfl
        · intro phase' next x
          exact readFrom_method later next here ident paren argsRun
        · intro phase' next reads'
          exact shorter (next_ne_name next) (by simp) reads'
      · have noAccess : isTypeAccess target = false := by
          simpa [isTypeMember, paren] using noType
        cases typeArgs : isGenericMethodCall (behind (behind s)).rest with
        | true =>
            have less := peek_of_isGenericMethodCall typeArgs
            apply agrees_at_unknown later here (linkAt_typeArgs here member typeArgs)
            intro next x
            rcases Option.isSome_iff_exists.mp next with ⟨phase', next⟩
            rw [readFrom_field later next here ident paren,
              readFrom_rejects phase' (next_ne_name next) (by simp [less])
                (by simp [Phase.accepts, less, compoundOp])]
            exact ⟨_, _, rfl⟩
        | false =>
            rw [parseDotPostfix_field member method noAccess paren typeArgs] at dotRun
            cases dotRun
            apply agrees_of_next (fun x => .fieldAccess x name) later reads
              (linkAt_field here member noAccess paren typeArgs) (by rw [here]; rfl) (by simp [here])
              (rejected _ (.inl rfl)) run
            · intro x y same
              cases same
              rfl
            · intro x
              rfl
            · intro phase' next x
              exact readFrom_field later next here ident paren
            · intro phase' next reads'
              exact shorter (next_ne_name next) (by simp) reads'

end Step

/-- Any operator, in front of which a type stands only where it makes no
difference. -/
theorem agrees_step (shorter : AgreesOn tokenize fuel count) (later : phase ≠ .name)
    (noType : s.peek = .dot → isTypeMember target s = false)
    (notIdent : s.peek = .colonColon → ∀ name, target ≠ .ident name)
    (reads : Reads tokenize fuel (count + 1) target s expr s') :
    Agrees (knot tokenize fuel) phase target s expr s' := by
  rcases reads.chain with ⟨operand, middle, chain, finishes⟩
  rw [parsePostfixChain] at chain
  rcases ok_of_bind chain with ⟨link, s₁, op, rest⟩
  by_cases bracket : s.peek = .lBracket
  · exact agrees_at_index shorter later reads bracket op
  by_cases paren : s.peek = .lParen
  · exact agrees_at_call shorter later reads paren op
  by_cases dot : s.peek = .dot
  · exact agrees_at_dot shorter later reads (noType dot) dot op
  by_cases static : s.peek = .colonColon
  · -- `::` stands behind a bare name only
    rw [parsePostfixOp_at_static static] at op
    rcases ok_of_map op with ⟨target', colonRun, _⟩
    cases target <;> first | cases colonRun | exact absurd rfl (notIdent static _)
  by_cases known : s.peek ≠ .less ∧ s.peek ≠ .dotDot ∧ s.peek ≠ .dotDotDot
  · rw [parsePostfixOp_at_other ⟨bracket, paren, dot, static⟩ known] at op
    cases op
    cases rest
    exact agrees_of_end later ⟨bracket, paren, dot, static⟩ finishes reads.end_
  · have noLink := linkAt_of_peek target rfl ⟨bracket, paren, dot, static⟩
    apply agrees_of_rejected later static _ (by rw [noLink, next_other])
    have unknown : s.peek = .less ∨ s.peek = .dotDot ∨ s.peek = .dotDotDot := by
      grind
    rcases unknown with here | here | here <;> simp [Phase.accepts, here, compoundOp]

/-- The statement agrees with `parse_expr` on every chain of operators. -/
theorem agreesOn (count : Nat) : AgreesOn tokenize fuel count := by
  induction count with
  | zero =>
      intro phase target s expr s' later notIdent reads
      rcases reads.chain with ⟨operand, middle, chain, _⟩
      cases chain
  | succ count ih =>
      intro phase target s expr s' later notIdent reads
      apply agrees_step ih later _ (fun _ => notIdent) reads
      intro _
      cases target <;> first | rfl | exact absurd rfl (notIdent _)

end Chain

/-! ## Statements that start with an identifier -/

section Name

variable {tokenize : String → Option (List TokenKind)} {fuel : Nat} {name : Ident}

theorem stmtOf_expr (close : End) (noAssign : isAssign target = false) :
    stmtOf (close.expr target) = close.stmt target := by
  cases close with
  | stop => cases target <;> first | rfl | cases noAssign
  | assign value => rfl
  | compound op value => rfl

/-- The statement is that of the expression exactly when its operators are those
of a statement. -/
theorem iff_of_agrees (phase : Phase) (agrees : Agrees (knot tokenize fuel) phase target s₁ expr s')
    (same : parseIdentStmt (knot tokenize fuel) name s = readFrom (knot tokenize fuel) phase target s₁)
    (clean : s'.errors = s₁.errors) (noAssign : isAssign target = false)
    (fast_iff : Fast (knot tokenize fuel) .name (.ident name) s ↔ Fast (knot tokenize fuel) phase target s₁) :
    parseIdentStmt (knot tokenize fuel) name s = some (.ok (stmtOf expr), behind s') ↔
      Fast (knot tokenize fuel) .name (.ident name) s := by
  rw [fast_iff, same]
  constructor
  · intro run
    by_cases fast : Fast (knot tokenize fuel) phase target s₁
    · exact fast
    · exact absurd clean (agrees.2 fast target _ (behind s') run)
  · intro fast
    rcases agrees.1 fast with ⟨context, close, _, keeps, rfl, reads⟩
    rw [reads target, stmtOf_expr close (keeps target noAssign)]

theorem iff_of_phase (phase : Phase) (later : phase ≠ .name)
    (noType : s.peek = .dot → isTypeMember (.ident name) s = false)
    (noStatic : s.peek ≠ .colonColon)
    (reads : Reads tokenize fuel (count + 1) (.ident name) s expr s')
    (same : parseIdentStmt (knot tokenize fuel) name s = readFrom (knot tokenize fuel) phase (.ident name) s)
    (assigns : s.peek = .equals → phase.assigns = true)
    (compounds : (compoundOp s.peek).isSome = true → phase.compounds = true)
    (next : phase.next (linkAt (.ident name) s.rest) = Phase.name.next (linkAt (.ident name) s.rest)) :
    parseIdentStmt (knot tokenize fuel) name s = some (.ok (stmtOf expr), behind s') ↔
      Fast (knot tokenize fuel) .name (.ident name) s := by
  apply iff_of_agrees phase (agrees_step (agreesOn count) later noType
    (fun static => absurd static noStatic) reads) same reads.clean rfl
  constructor
  · intro fast
    cases fast with
    | stop here => exact .stop here
    | assign _ here fits => exact .assign (assigns here) here fits
    | compound _ here fits => exact .compound (compounds (by simp [here])) here fits
    | link next' link rest => exact .link (next.trans next') link rest
  · intro fast
    cases fast with
    | stop here => exact .stop here
    | assign _ here fits => exact .assign rfl here fits
    | compound _ here fits => exact .compound rfl here fits
    | link next' link rest => exact .link (next.symm.trans next') link rest

theorem parseIdentStmt_indexed (noDot : s.peek ≠ .dot) (noStatic : s.peek ≠ .colonColon) :
    parseIdentStmt r name s = readFrom r .indexed (.ident name) s := by
  by_cases bracket : s.peek = .lBracket
  · simp [parseIdentStmt, readFrom, bracket, compoundOp]
  · have noIndex := parseIndices_stop r (.ident name) bracket
    have noMember := parseMembers_stop r (.ident name) noDot
    by_cases assign : s.peek = .equals
    · simp [parseIdentStmt, readFrom, noIndex, parseIndexedStmt, assign]
    · cases compound : compoundOp s.peek <;>
        simp [parseIdentStmt, readFrom, noIndex, parseIndexedStmt, parseIndexedMembers, noMember,
          bracket, noDot, noStatic, assign, compound]

theorem parseIdentStmt_member (here : s.peek = .dot) :
    parseIdentStmt r name s = readFrom r .memberMethod (.ident name) s := by
  simp [parseIdentStmt, readFrom, here, compoundOp]

theorem parseIdentStmt_static [OrderlyRec r] (here : s.peek = .colonColon) {method : Ident}
    (named : parseIdent (behind s) = some (.ok method, middle))
    (run : parseStaticArgs r middle = some (.ok args, s₁)) :
    parseIdentStmt r name s = readFrom r .static (.enumValue name method [] args) s₁ := by
  have start : parseIdentStmt r name s = parseStaticStmt r (.ident name) s := by
    simp [parseIdentStmt, here, compoundOp]
  have round : parseStaticMember r (.ident name) s =
      (parsePlainMembers r (.enumValue name method [] args) >>= fun expr => pure (.inl expr)) s₁ := by
    rw [parseStaticMember, bind_of_ok (consume_here here)]
    simp [named, run, staticOwner]
  rw [start, readFrom, parseStaticStmt]
  cases members : parsePlainMembers r (.enumValue name method [] args) s₁ with
  | none =>
      rw [bind_apply, bind_apply, members, loop, iterate, bind_apply, round, bind_apply, members]
  | some pair =>
      rcases pair with ⟨e | expr, s₂⟩
      · rw [bind_apply, bind_apply, members, loop, iterate, bind_apply, round, bind_apply, members]
      · rw [bind_of_ok members] at round
        have unrolled : loop (parseStaticMember r) (.ident name) s =
            loop (parseStaticMember r) expr s₂ := loop_next parseStaticMember_consumes round
        rw [bind_of_ok members, parseStaticStmt, bind_apply, bind_apply, unrolled]

/-! ### Types -/

theorem expr_at_colon {arg : Ident} {tail : List TokenKind} {errors : List ParseError}
    {depth : Nat} {value : Expr}
    (run : (knot tokenize fuel).expr ⟨.ident arg :: .colon :: tail, errors, depth⟩ =
      some (.ok value, s')) :
    s' = ⟨.colon :: tail, errors, depth⟩ := by
  cases fuel with
  | zero => cases run
  | succ fuel =>
      by_cases shallow : depth + 1 ≤ maxRecursionDepth
      · have readable : Precedence.Readable fuel (depth + 1) (.ident arg) (.colon :: tail) :=
          { height_le := Nat.zero_le fuel
            nesting_le := shallow
            chain_lt := by simp [Precedence.Tree.chain, maxRecursionDepth]
            quiet := ⟨rfl, rfl, rfl⟩ }
        have reads : Precedence.ExprReads tokenize (.ident arg) := (Precedence.reads _).expr
        have read := reads errors readable rfl
        cases read.symm.trans run
        rfl
      · have deep : maxRecursionDepth < depth + 1 := Nat.lt_of_not_le shallow
        have fails : parseExpr (knot tokenize fuel) ⟨.ident arg :: .colon :: tail, errors, depth⟩ =
            some (.ok value, s') := run
        simp only [parseExpr, nested, bind_apply, get_apply, gt_iff_lt, deep, if_true,
          error_apply] at fails
        cases fails

theorem parseArgs_named (named : isNamedArg s.rest = true) :
    parseArgs (knot tokenize fuel) s ≠ some (.ok args, s') := by
  intro run
  rcases s with ⟨rest, errors, depth⟩
  have tokens : ∃ arg tail, rest = .ident arg :: .colon :: tail := by
    match rest, named with
    | .ident arg :: .colon :: tail, _ => exact ⟨arg, tail, rfl⟩
  rcases tokens with ⟨arg, tail, rfl⟩
  rw [parseArgs] at run
  rcases ok_of_bind run with ⟨read, middle, list, closing⟩
  have items : commaList1 (knot tokenize fuel).expr
      ⟨.ident arg :: .colon :: tail, errors, depth⟩ = some (.ok read, middle) := by
    simpa [commaList] using list
  rcases ok_of_bind items with ⟨first, s₁, firstRun, more⟩
  have atColon := expr_at_colon firstRun
  subst atColon
  have ends : commaTail (knot tokenize fuel).expr none [first] ⟨.colon :: tail, errors, depth⟩ =
      some (.ok [first], ⟨.colon :: tail, errors, depth⟩) := by
    apply loop_done
    rw [commaItem, bind_of_ok (consume_of_ne _ (by simp))]
    rfl
  rw [ends] at more
  cases more
  simp [expect] at closing

theorem isNamedArg_of_hasNamedArgs (named : hasNamedArgs s.rest = true) :
    isNamedArg (behind s).rest = true := by
  rcases s with ⟨rest, errors, depth⟩
  match rest, named with
  | .lParen :: rest, named => exact named

theorem parseDotPostfix_type {field : Ident} (member : isMemberName s.peek = true)
    (named : parseMethodName s = some (.ok field, behind s))
    (access : isTypeAccess (.ident name) = true) (noParen : (behind s).peek ≠ .lParen) :
    parseDotPostfix r (.ident name) s = some (.ok (.enumValue name field [] []), behind s) := by
  have paren : ((behind s).peek == .lParen) = false := by simpa using noParen
  cases token : s.peek with
  | ident ident | keyword keyword => simp [parseDotPostfix, token, named, access, paren]
  | _ => simp [isMemberName, token] at member

theorem stmt_injective (close : End) : Function.Injective close.stmt := by
  intro x y same
  cases close <;> cases same <;> rfl

theorem parseIdentStmt_type (here : s.peek = .dot) (type : isTypeMember (.ident name) s = true)
    (reads : Reads tokenize fuel (count + 1) (.ident name) s expr s') :
    parseIdentStmt (knot tokenize fuel) name s ≠ some (.ok (stmtOf expr), behind s') := by
  intro run
  rw [parseIdentStmt_member here] at run
  rcases reads.chain with ⟨operand, middle, chain, finishes⟩
  rw [parsePostfixChain] at chain
  rcases ok_of_bind chain with ⟨link, s₁, op, rest⟩
  have link_run := op
  rw [parsePostfixOp_at_dot here] at op
  rcases ok_of_map op with ⟨target', dotRun, rfl⟩
  cases member : isMemberName (behind s).peek with
  | false =>
      rw [readFrom_unnamed (by simp) rfl here
        (parseIdent_of_other member (parseDotPostfix_named dotRun))] at run
      cases run
  | true =>
      rcases parseIdent_of_member member with ⟨field, ident, method⟩
      simp [isTypeMember] at type
      rcases type with ⟨access, kind⟩
      by_cases paren : (behind (behind s)).peek = .lParen
      · have named : isNamedArg (behind (behind (behind s))).rest = true := by
          have namedArgs : hasNamedArgs (behind (behind s)).rest = true := by
            simpa [paren] using kind
          exact isNamedArg_of_hasNamedArgs namedArgs
        rcases ok_of_bind run with ⟨members, last, membersRun, _⟩
        rw [parseMembers, loop, iterate] at membersRun
        rcases ok_of_bind membersRun with ⟨round, after, roundRun, _⟩
        rw [parseMember, bind_of_ok (consume_here here)] at roundRun
        simp only [if_true] at roundRun
        rw [bind_of_ok ident, bind_of_ok (check_apply _ _)] at roundRun
        simp only [paren, beq_self_eq_true, if_true] at roundRun
        rcases ok_of_map roundRun with ⟨args, argsRun, _⟩
        rw [parseCallArgs, bind_of_ok (bump_apply _)] at argsRun
        exact parseArgs_named named argsRun
      · -- `parse_expr` reads an enum value, the statement a field
        have enumValue : parseDotPostfix (knot tokenize fuel) (.ident name) (behind s) =
            some (.ok (.enumValue name field [] []), behind (behind s)) := by
          exact parseDotPostfix_type member method access paren
        rw [enumValue] at dotRun
        cases dotRun
        rcases reads.next link_run with ⟨clean, reads'⟩
        rw [readFrom_field (by simp) rfl here ident paren] at run
        have agrees : Agrees (knot tokenize fuel) .memberField (.enumValue name field [] [])
            (behind (behind s)) expr s' := agreesOn count (by simp) (by simp) reads'
        by_cases fast : Fast (knot tokenize fuel) .memberField (.enumValue name field [] [])
            (behind (behind s))
        · rcases agrees.1 fast with ⟨context, close, injective, keeps, rfl, readsAs⟩
          rw [readsAs, stmtOf_expr close (keeps _ rfl)] at run
          have same : close.stmt (context (.fieldAccess (.ident name) field)) =
              close.stmt (context (.enumValue name field [] [])) := by
            simpa using run
          cases injective (stmt_injective close same)
        · exact agrees.2 fast _ _ _ run reads'.clean

/-- A static call whose name or type arguments statements do not know. -/
theorem parseIdentStmt_unknown [OrderlyRec r] (here : s.peek = .colonColon)
    (unknown : parseIdent (behind s) = some (.error (.message "expected identifier"), behind s) ∨ ∃ method, parseIdent (behind s) = some (.ok method, behind (behind s)) ∧ (behind (behind s)).peek = .less) :
    ∃ e s'', parseIdentStmt r name s = some (.error e, s'') := by
  rcases unknown with unnamed | ⟨method, named, less⟩
  · have round : parseStaticMember r (.ident name) s =
        some (.error (.message "expected identifier"), behind s) := by
      rw [parseStaticMember, bind_of_ok (consume_here here)]
      simp [unnamed]
    have start : parseIdentStmt r name s = parseStaticStmt r (.ident name) s := by
      simp [parseIdentStmt, here, compoundOp]
    have fails := (LoopsTo.failed round).loop
    exact ⟨_, _, by rw [start, parseStaticStmt, bind_of_error fails]⟩
  · have noArgs : parseStaticArgs r (behind (behind s)) = some (.ok [], behind (behind s)) := by
      rw [parseStaticArgs, bind_of_ok (consume_of_ne _ (by simp [less]))]
      rfl
    rw [parseIdentStmt_static here named noArgs, readFrom_rejects .static (by simp) (by simp [less])
      (by simp [Phase.accepts, Phase.assigns, Phase.compounds, Phase.next, less])]
    exact ⟨_, _, rfl⟩

theorem parseColonPostfix_plain {method : Ident} {target' : Expr}
    (named : parseMethodName (behind s) = some (.ok method, behind (behind s)))
    (noTypeArgs : isGenericMethodCall (behind (behind s)).rest = false)
    (run : parseColonPostfix r (.ident name) none s = some (.ok target', s₁)) :
    ∃ args, target' = .enumValue name method [] args ∧
      parseStaticArgs r (behind (behind s)) = some (.ok args, s₁) := by
  rw [parseColonPostfix] at run
  rw [bind_of_ok (bump_apply s), bind_of_ok named] at run
  by_cases paren : (behind (behind s)).peek = .lParen
  · have call : (parseArgs r >>= fun args => pure (Expr.enumValue name method [] args))
        (behind (behind (behind s))) = some (.ok target', s₁) := by
      simpa [noTypeArgs, paren] using run
    rcases ok_of_map call with ⟨args, argsRun, rfl⟩
    refine ⟨args, rfl, ?_⟩
    rw [parseStaticArgs, bind_of_ok (consume_here paren)]
    exact argsRun
  · simp [noTypeArgs, paren] at run
    rcases run with ⟨rfl, rfl⟩
    refine ⟨[], rfl, ?_⟩
    rw [parseStaticArgs, bind_of_ok (consume_of_ne _ paren)]
    rfl

theorem parseIdentStmt_colon (here : s.peek = .colonColon)
    (reads : Reads tokenize fuel (count + 1) (.ident name) s expr s') :
    parseIdentStmt (knot tokenize fuel) name s = some (.ok (stmtOf expr), behind s') ↔
      Fast (knot tokenize fuel) .name (.ident name) s := by
  have link := linkAt_static (.ident name) here
  have unread : linkAt (.ident name) s.rest = .other →
      (∃ e s'', parseIdentStmt (knot tokenize fuel) name s = some (.error e, s'')) →
        (parseIdentStmt (knot tokenize fuel) name s = some (.ok (stmtOf expr), behind s') ↔
          Fast (knot tokenize fuel) .name (.ident name) s) := by
    rintro noLink ⟨e, s'', fails⟩
    have notFast : ¬ Fast (knot tokenize fuel) .name (.ident name) s :=
      not_fast_of_other (by simp [here]) (by simp [here]) (by simp [here, compoundOp])
        (by rw [noLink, next_other])
    rw [fails]
    exact iff_of_false (by simp) notFast
  rcases reads.chain with ⟨operand, middle, chain, _⟩
  rw [parsePostfixChain] at chain
  rcases ok_of_bind chain with ⟨_, s₁, op, _⟩
  have run := op
  rw [parsePostfixOp_at_static here] at op
  rcases ok_of_map op with ⟨target', colonRun, rfl⟩
  cases member : isMemberName (behind s).peek with
  | false =>
      have noUnderscore : (behind s).peek ≠ .underscore := by
        rw [parseColonPostfix, bind_of_ok (bump_apply s)] at colonRun
        rcases ok_of_bind colonRun with ⟨_, _, named, _⟩
        exact parseMethodName_named named
      apply unread (by rw [link]; simp [member])
      exact parseIdentStmt_unknown here (.inl (parseIdent_of_other member noUnderscore))
  | true =>
      rcases parseIdent_of_member member with ⟨method, ident, named⟩
      cases typeArgs : isGenericMethodCall (behind (behind s)).rest with
      | true =>
          apply unread (by rw [link]; simp [typeArgs])
          exact parseIdentStmt_unknown here
            (.inr ⟨method, ident, peek_of_isGenericMethodCall typeArgs⟩)
      | false =>
          rcases parseColonPostfix_plain named typeArgs colonRun with ⟨args, rfl, argsRun⟩
          rcases reads.next run with ⟨clean, reads'⟩
          have static : linkAt (.ident name) s.rest = .static := by
            rw [link]
            simp [member, typeArgs]
          apply iff_of_agrees .static (agreesOn count (by simp) (by simp) reads')
            (parseIdentStmt_static here ident argsRun) reads'.clean rfl
          exact fast_iff_of_link (by rw [static]; rfl) run (by rw [here]; rfl)

theorem parseIdentStmt_iff (reads : Reads tokenize fuel (count + 1) (.ident name) s expr s') :
    parseIdentStmt (knot tokenize fuel) name s = some (.ok (stmtOf expr), behind s') ↔
      Fast (knot tokenize fuel) .name (.ident name) s := by
  by_cases static : s.peek = .colonColon
  · exact parseIdentStmt_colon static reads
  by_cases dot : s.peek = .dot
  · cases type : isTypeMember (.ident name) s with
    | true =>
        have noStatement := parseIdentStmt_type dot type reads
        have noLink : linkAt (.ident name) s.rest = .other := by
          cases member : isMemberName (behind s).peek with
          | false => exact memberLink_of_other dot member
          | true => exact linkAt_typeMember dot member type
        have notFast : ¬ Fast (knot tokenize fuel) .name (.ident name) s :=
          not_fast_of_other (by simp [dot]) (by simp [dot]) (by simp [dot, compoundOp])
            (by rw [noLink, next_other])
        exact iff_of_false noStatement notFast
    | false =>
        apply iff_of_phase .memberMethod (by simp) (fun _ => type) static reads
          (parseIdentStmt_member dot) (by simp [dot]) (by simp [dot, compoundOp])
        rcases linkAt_dot (.ident name) dot with link | link | link <;> rw [link] <;> rfl
  · apply iff_of_phase .indexed (by simp) (fun here => absurd here dot) static reads
      (parseIdentStmt_indexed dot static) (fun _ => rfl) (fun _ => rfl)
    rcases linkAt_noMember (.ident name) dot static with link | link | link <;>
      rw [link] <;> rfl

/-- What `parse_expr` reads starts with the name and goes on with its operators,
unless type arguments or a struct literal may stand behind the name. -/
theorem reads_of_run (starts : s.peek = .ident name)
    (plain : (behind s).peek ≠ .less ∧ (behind s).peek ≠ .lBrace)
    (run : parseAssignExpr (knot tokenize fuel) s = some (.ok expr, s'))
    (end_ : s'.peek = .semicolon) (clean : s'.errors = s.errors) :
    Reads tokenize fuel maxRecursionDepth (.ident name) (behind s) expr s' := by
  rcases parseAssignExpr_operand starts run with ⟨operand, middle, postfix_, finishes⟩
  have primary : parsePrimaryExpr (knot tokenize fuel) s = some (.ok (.ident name), behind s) := by
    rcases plain with ⟨noLess, noBrace⟩
    have noSkip : skipTypeArgsBeforeBrace (behind s).rest = (behind s).rest := by
      cases tokens : (behind s).rest with
      | nil => rfl
      | cons first rest =>
          rw [State.peek, tokens] at noLess
          cases first <;> first | rfl | exact absurd rfl noLess
    have noStruct : isStructLiteral (behind s).rest = false := by
      cases tokens : (behind s).rest with
      | nil => rfl
      | cons first rest =>
          rw [State.peek, tokens] at noBrace
          cases first <;> first | rfl | exact absurd rfl noBrace
    rw [parsePrimaryExpr, bind_of_ok (peek_apply s), starts]
    simp only [bind_apply, bump_apply, parseIdentExpr, modify_apply, get_apply, noSkip, noStruct]
    rfl
  rw [parsePostfixExpr, bind_of_ok primary] at postfix_
  exact ⟨⟨operand, middle, postfix_, finishes⟩, end_, clean⟩

theorem parseStmtInner_iff (starts : s.peek = .ident name)
    (run : parseAssignExpr (knot tokenize fuel) s = some (.ok expr, s'))
    (end_ : s'.peek = .semicolon) (clean : s'.errors = s.errors) :
    parseStmtInner (knot tokenize fuel) s = some (.ok (stmtOf expr), behind s') ↔
      Fast (knot tokenize fuel) .name (.ident name) (behind s) := by
  have inner : parseStmtInner (knot tokenize fuel) s =
      parseIdentStmt (knot tokenize fuel) name (behind s) := by
    simp [parseStmtInner, starts]
  rw [inner]
  by_cases plain : (behind s).peek ≠ .less ∧ (behind s).peek ≠ .lBrace
  · exact parseIdentStmt_iff (reads_of_run starts plain run end_ clean)
  · have unread : (behind s).peek = .less ∨ (behind s).peek = .lBrace := by
      grind
    have noLink : linkAt (.ident name) (behind s).rest = .other := by
      rcases unread with here | here <;> exact linkAt_of_peek _ here (by simp)
    have notFast : ¬ Fast (knot tokenize fuel) .name (.ident name) (behind s) := by
      rcases unread with here | here <;>
        exact not_fast_of_other (by simp [here]) (by simp [here]) (by simp [here, compoundOp])
          (by rw [noLink, next_other])
    have fails : parseIdentStmt (knot tokenize fuel) name (behind s) =
        some (.error (.expected .semicolon (behind s).peek), behind s) := by
      rcases unread with here | here <;>
        (rw [parseIdentStmt_indexed (by simp [here]) (by simp [here])]
         exact readFrom_rejects .indexed (by simp) (by simp [here])
           (by simp [Phase.accepts, Phase.assigns, Phase.compounds, Phase.next, here, compoundOp]))
    rw [fails]
    exact iff_of_false (by simp) notFast

end Name

end Statement

/-- A statement that starts with an identifier is what `parse_expr` reads there
exactly when its operators are those that the parser of statements knows. -/
theorem parseStmt_iff (tokenize : String → Option (List TokenKind)) (fuel : Nat) {name : Ident}
    {s s' : State} {expr : Expr} (starts : s.peek = .ident name)
    (run : parseExpr (knot tokenize fuel) s = some (.ok expr, s'))
    (clean : s'.errors = s.errors) (end_ : s'.peek = .semicolon) :
    parseStmt (knot tokenize fuel) s = some (.ok (stmtOf expr), behind s') ↔
      Fast (knot tokenize fuel) .name (.ident name) (behind s).deeper := by
  rcases Orderly.nested_run run with ⟨_, failed⟩ | ⟨shallow, middle, inner, rfl⟩
  · cases failed
  have innerIff := parseStmtInner_iff (s := s.deeper) starts inner end_ clean
  have depth : middle.depth = s.depth + 1 := Orderly.depth_eq inner
  have same : behind s.deeper = (behind s).deeper := rfl
  rw [← same, ← innerIff]
  constructor
  · intro stmtRun
    rcases Orderly.nested_run stmtRun with ⟨_, failed⟩ | ⟨_, last, innerStmt, ends⟩
    · cases failed
    · have lastDepth : last.depth = s.depth + 1 := Orderly.depth_eq innerStmt
      have lastIs : last = behind middle := by
        rcases last with ⟨rest, errors, lastAt⟩
        rcases middle with ⟨rest', errors', middleAt⟩
        simp [behind] at ends depth lastDepth ⊢
        simp [ends, depth, lastDepth]
      rw [← lastIs]
      exact innerStmt
  · intro innerStmt
    rcases middle with ⟨rest, errors, middleAt⟩
    cases depth
    exact nested_of_run s.rest s.errors s.depth shallow innerStmt

/-- `xs[0].f = y;` is read as an assignment. -/
theorem parseStmt_iff_assignment :
    parseStmt (knot (fun _ => none) 4)
        ⟨[.ident "xs", .lBracket, .integer 0, .rBracket, .dot, .ident "f", .equals, .ident "y",
          .semicolon], [], 0⟩ =
      some (.ok (.assignment
          (.fieldAccess (.index (.ident "xs") (.literal (.integer 0))) "f") (.ident "y")),
        ⟨[], [], 0⟩) := by
  have run : parseExpr (knot (fun _ => none) 4)
      ⟨[.ident "xs", .lBracket, .integer 0, .rBracket, .dot, .ident "f", .equals, .ident "y",
        .semicolon], [], 0⟩ =
      some (.ok (.assign (.fieldAccess (.index (.ident "xs") (.literal (.integer 0))) "f")
        (.ident "y")), ⟨[.semicolon], [], 0⟩) := rfl
  have fits : ValueFits (knot (fun _ => none) 4) ⟨[.equals, .ident "y", .semicolon], [], 1⟩ :=
    ⟨.ident "y", ⟨[.semicolon], [], 1⟩, rfl, rfl⟩
  have fast : Fast (knot (fun _ => none) 4) .name (.ident "xs")
      ⟨[.lBracket, .integer 0, .rBracket, .dot, .ident "f", .equals, .ident "y", .semicolon], [],
        1⟩ :=
    .link rfl rfl (.link rfl rfl (.assign rfl rfl fits))
  exact (parseStmt_iff (fun _ => none) 4 rfl run rfl rfl).mpr fast

/-- `x.y += z` is an expression, but `x.y += z;` is no statement. -/
theorem fieldCompound_not_parseStmt :
    parseExpr (knot (fun _ => none) 2)
        ⟨[.ident "x", .dot, .ident "y", .plusEquals, .ident "z", .semicolon], [], 0⟩ =
      some (.ok (.compoundAssign .add (.fieldAccess (.ident "x") "y") (.ident "z")),
        ⟨[.semicolon], [], 0⟩) ∧
    ∀ tokenize fuel, parseStmt (knot tokenize fuel)
        ⟨[.ident "x", .dot, .ident "y", .plusEquals, .ident "z", .semicolon], [], 0⟩ =
      some (.error (.expected .semicolon .plusEquals),
        ⟨[.plusEquals, .ident "z", .semicolon], [], 0⟩) :=
  ⟨rfl, fun _ _ => rfl⟩

end Tinox.Parser.FastPath
