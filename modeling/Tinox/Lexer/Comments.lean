import Tinox.Lexer.Progress

/-!
# Where block comments end

The reader of block comments looks at a third character, which tells doc
comments, before it looks for the end of the comment.  In `/**/` that character
belongs to the end, which is missed; the comment then goes on to the next `*/`.
And a comment that is never closed is accepted.
-/

namespace Tinox.Lexer

open Tinox.Syntax
open Read

/-- The text behind `/*` is the comment `body`, its end and `more`. -/
structure Closes (text body more : List Char) : Prop where
  text_eq : text = body ++ '*' :: '/' :: more
  first : ¬ ['*', '/'] <:+: body

/-- The tokens that a comment leaves. -/
def docComments : List Char → List TokenKind
  | '*' :: text => [.docComment (String.ofList text)]
  | _ => []

variable {c : Char} {body : List Char}

theorem docComments_plain (plain : c ≠ '*') : docComments (c :: body) = [] := by
  unfold docComments
  split
  · next same => exact absurd (List.cons.inj same).1 plain
  · rfl

/-- The source text of a comment that is not closed yet, and what follows. -/
def opened (text : List Char) : List Char :=
  '/' :: '*' :: text

/-- A comment ends where it should: if it is closed then its token ends there and
what follows is lexed as if it were alone, and if it is not there is an error. -/
structure Ends (text : List Char) : Prop where
  closed : ∀ body more, Closes text body more →
    (nextToken (Lexer.new (String.ofList (opened text)))).2.pos = body.length + 4 ∧
      lexed (opened text) = (lexed more).map (Except.map (docComments body ++ ·))
  unclosed : (∀ body more, ¬ Closes text body more) →
    ∃ errors, tokenize (String.ofList (opened text)) = some (.error errors)

/-- The kind of a block comment. -/
def commentKind (isDoc : Bool) (text : List Char) : TokenKind :=
  if isDoc then .docComment (String.ofList text) else .comment (String.ofList text)

variable {text more : List Char}

theorem blockComment_eq (isDoc : Bool) (text : List Char) :
    blockComment isDoc text = token (commentKind isDoc text) := by
  cases isDoc <;> rfl

theorem Closes.inside (closes : Closes text (c :: body) more) :
    ¬ (c = '*' ∧ (body ++ '*' :: '/' :: more).head? = some '/') := by
  rintro ⟨rfl, slash⟩
  cases body with
  | nil => cases slash
  | cons d body =>
      cases slash
      exact closes.first ⟨[], body, rfl⟩

theorem Closes.tail (closes : Closes text (c :: body) more) :
    Closes (body ++ '*' :: '/' :: more) body more where
  text_eq := rfl
  first found := closes.first (found.trans (List.suffix_cons c body).isInfix)

theorem slice_rest {s : Lexer} (text : s.rest = body ++ more) :
    s.slice s.pos (s.pos + body.length) = body := by
  rw [Lexer.slice, Nat.add_sub_cancel_left]
  exact (congrArg (List.take body.length) text).trans List.take_left

theorem blockCommentLoop_closed {isDoc : Bool} {start count : Nat} {s : Lexer}
    {body more : List Char} (closes : Closes s.rest body more) (enough : count = s.rest.length) :
    ∃ t s', blockCommentLoop isDoc start count s = (.ok t, s') ∧
      t.kind = commentKind isDoc (s.slice start (s.pos + body.length)) ∧
      s'.chars = s.chars ∧ s'.pos = s.pos + body.length + 2 := by
  induction body generalizing s count with
  | nil =>
      have text : s.rest = '*' :: '/' :: more := closes.text_eq
      have slash : s.peekNext = '/' := by
        rw [Lexer.peekNext, Lexer.ahead_eq, text]
        rfl
      rw [enough, text, List.length_cons, blockCommentLoop, bind_peek, bind_peekNext,
        if_pos ⟨Lexer.peek_of_rest text, slash⟩, bind_get, bind_bump, bind_bump, blockComment_eq]
      exact ⟨_, _, rfl, rfl, rfl, rfl⟩
  | cons c body ih =>
      have text : s.rest = c :: (body ++ '*' :: '/' :: more) := closes.text_eq
      have goesOn : ¬ (s.peek = '*' ∧ s.peekNext = '/') := by
        rintro ⟨star, slash⟩
        have second := Lexer.rest_of_peek (s := s.bump) slash (by decide)
        rw [Lexer.rest_bump, text, List.tail_cons] at second
        refine closes.inside ⟨(Lexer.peek_of_rest text).symm.trans star, ?_⟩
        rw [second]
        rfl
      have next := Lexer.rest_bump_cons text
      have after : Closes s.bump.rest body more := next ▸ closes.tail
      have step : ∃ u : Lexer, u.chars = s.chars ∧ u.pos = s.pos + 1 ∧
          blockCommentLoop isDoc start count s =
            blockCommentLoop isDoc start s.bump.rest.length u := by
        rw [enough, text, List.length_cons, next, blockCommentLoop, bind_peek, bind_peekNext,
          if_neg goesOn, bind_peek]
        by_cases newline : s.peek = '\n'
        · simp only [if_pos newline, bind_modify, bind_bump]
          exact ⟨({ s with line := s.line + 1, column := 0 } : Lexer).bump, rfl, rfl, rfl⟩
        · simp only [if_neg newline, bind_bump]
          exact ⟨s.bump, rfl, rfl, rfl⟩
      rcases step with ⟨u, chars, pos, step⟩
      have same : u.rest = s.bump.rest := by rw [Lexer.rest, chars, pos]; rfl
      rcases ih (s := u) (same ▸ after) (congrArg _ same.symm) with ⟨t, s', run, kind, chars', pos'⟩
      refine ⟨t, s', step.trans run, ?_, chars'.trans chars, ?_⟩
      · rw [kind, Lexer.slice, Lexer.slice, chars, pos, List.length_cons, Nat.add_assoc,
          Nat.add_comm 1]
      · rw [pos', pos, List.length_cons, Nat.add_assoc s.pos 1, Nat.add_comm 1]

theorem readBlockComment_closed {s : Lexer} (source : s.rest = opened text)
    (closes : Closes text body more) (notEmpty : body ≠ []) :
    ∃ t s', readBlockComment s = (.ok t, s') ∧
      (if t.kind.isTrivia then [] else [t.kind]) = docComments body ∧ t.kind ≠ .eof ∧
      s'.chars = s.chars ∧ s'.pos = s.pos + body.length + 4 := by
  cases body with
  | nil => exact absurd rfl notEmpty
  | cons c body =>
      have second := Lexer.rest_bump_cons source
      have third := Lexer.rest_bump_cons second
      have first : s.bump.bump.peek = c := Lexer.peek_of_rest (third.trans closes.text_eq)
      rw [readBlockComment, bind_bump, bind_bump, bind_peek, first]
      by_cases doc : c = '*'
      · subst doc
        have fourth : s.bump.bump.bump.rest = body ++ '*' :: '/' :: more := by
          rw [Lexer.rest_bump, third, closes.text_eq]
          rfl
        simp only [decide_true, if_true, bind_bump, bind_get]
        rcases @blockCommentLoop_closed true s.bump.bump.bump.pos _ _ _ _
          (fourth ▸ closes.tail) (Lexer.length_rest _).symm with ⟨t, s', run, kind, chars, pos⟩
        rw [slice_rest fourth] at kind
        refine ⟨t, s', run, ?_, ?_, chars, ?_⟩
        · rw [kind]
          rfl
        · rw [kind]
          exact TokenKind.noConfusion
        · rw [pos, List.length_cons]
          simp only [Lexer.bump]
          omega
      · rw [← third] at closes
        simp only [doc, decide_false, if_false, bind_get]
        rcases @blockCommentLoop_closed false s.bump.bump.pos _ _ _ _
          closes (Lexer.length_rest _).symm with ⟨t, s', run, kind, chars, pos⟩
        rw [slice_rest closes.text_eq] at kind
        refine ⟨t, s', run, ?_, ?_, chars, ?_⟩
        · rw [kind]
          exact (docComments_plain doc).symm
        · rw [kind]
          exact TokenKind.noConfusion
        · rw [pos]
          simp only [Lexer.bump]
          omega

theorem begin_new (text : List Char) :
    (Lexer.new (String.ofList text)).begin = Lexer.new (String.ofList text) :=
  rfl

theorem rest_new (text : List Char) : (Lexer.new (String.ofList text)).rest = text :=
  String.toList_ofList

theorem nextToken_opened (text : List Char) :
    nextToken (Lexer.new (String.ofList (opened text))) =
      readBlockComment (Lexer.new (String.ofList (opened text))) := by
  have rest := rest_new (opened text)
  have first : (Lexer.new (String.ofList (opened text))).peek = '/' := Lexer.peek_of_rest rest
  have second : (Lexer.new (String.ofList (opened text))).peekNext = '*' := by
    rw [Lexer.peekNext, Lexer.ahead_eq, rest]
    rfl
  rw [nextToken_read (by rw [rest]; exact List.cons_ne_nil _ _), begin_new, first, second]
  rfl

theorem Closes.lexed_eq (closes : Closes text body more) (notEmpty : body ≠ []) :
    (nextToken (Lexer.new (String.ofList (opened text)))).2.pos = body.length + 4 ∧
      lexed (opened text) = (lexed more).map (Except.map (docComments body ++ ·)) := by
  rcases readBlockComment_closed (rest_new _) closes notEmpty with
    ⟨t, s', run, left, inside, chars, pos⟩
  rw [← nextToken_opened] at run
  have behind : s'.pos = body.length + 4 := by
    rw [pos]
    exact congrArg (· + 4) (Nat.zero_add _)
  refine ⟨by rw [run]; exact behind, ?_⟩
  have whole : opened text = ('/' :: '*' :: body ++ ['*', '/']) ++ more := by
    rw [opened, closes.text_eq, List.append_assoc]
    rfl
  have shift : Shift ('/' :: '*' :: body ++ ['*', '/']) (Lexer.new (String.ofList more)) s' := by
    refine ⟨?_, ?_, ?_⟩
    · rw [chars, Lexer.new, Lexer.new, String.toList_ofList, String.toList_ofList, whole]
    · rw [behind, List.length_append]
      rfl
    · rw [List.getLast?_append]
      simp
  -- The rest of the text is lexed as if it stood alone.
  have alone : (tokenizeLoop (more.length + 1) (Lexer.new (String.ofList more))).isSome :=
    tokenizeLoop_isSome (by rw [rest_new]; exact Nat.lt_succ_self _)
  rcases Option.isSome_iff_exists.mp alone with ⟨found, loop⟩
  have same := shift.tokenizeLoop (more.length + 1)
  rw [loop, Option.map_some, Option.map_eq_some_iff] at same
  rcases same with ⟨found', loop', same⟩
  have enough : more.length + 1 ≤ (opened text).length := by
    rw [whole, List.length_append, Nat.add_comm]
    exact Nat.add_le_add_right (by simp) _
  rw [Lexer.lexed_eq, Lexer.lexed_eq, loop, tokenizeLoop, run]
  dsimp only
  rw [if_neg inside, tokenizeLoop_more loop' enough, ← left]
  simp only [Option.map_some]
  rw [← same]
  rcases found' with ⟨tokens, errors⟩
  cases t.kind.isTrivia <;> cases errors <;> rfl

theorem blockCommentLoop_succeeds (isDoc : Bool) (start count : Nat) (s : Lexer) :
    ∃ t s', blockCommentLoop isDoc start count s = (.ok t, s') := by
  induction count generalizing s with
  | zero =>
      rw [blockCommentLoop, bind_get, blockComment_eq]
      exact ⟨_, _, rfl⟩
  | succ count ih =>
      rw [blockCommentLoop, bind_peek, bind_peekNext]
      by_cases closing : s.peek = '*' ∧ s.peekNext = '/'
      · rw [if_pos closing, bind_get, bind_bump, bind_bump, blockComment_eq]
        exact ⟨_, _, rfl⟩
      · rw [if_neg closing, bind_peek]
        by_cases newline : s.peek = '\n'
        · simp only [if_pos newline, bind_modify, bind_bump]
          exact ih _
        · simp only [if_neg newline, bind_bump]
          exact ih _

theorem readBlockComment_succeeds (s : Lexer) : ∃ t s', readBlockComment s = (.ok t, s') := by
  rw [readBlockComment, bind_bump, bind_bump, bind_peek]
  by_cases doc : s.bump.bump.peek = '*'
  · simp only [doc, decide_true, if_true, bind_bump, bind_get]
    exact blockCommentLoop_succeeds ..
  · simp only [doc, decide_false, if_false, bind_get]
    exact blockCommentLoop_succeeds ..

theorem afterComment_unclosed (unclosed : ¬ ['*', '/'] <:+: text) : afterComment text = [] := by
  fun_induction afterComment text with
  | case1 => rfl
  | case2 more => exact absurd ⟨[], more, rfl⟩ unclosed
  | case3 c more _ ih => exact ih fun found => unclosed (found.trans (List.suffix_cons c more).isInfix)

theorem afterComment_lt (notEmpty : text ≠ []) : (afterComment text).length < text.length := by
  fun_induction afterComment text with
  | case1 => exact absurd rfl notEmpty
  | case2 more => exact Nat.lt_succ_of_lt (Nat.lt_succ_self _)
  | case3 c more _ ih =>
      cases more with
      | nil => exact Nat.zero_lt_one
      | cons d more => exact Nat.lt_succ_of_lt (ih (List.cons_ne_nil _ _))

theorem closes_of_infix (found : ['*', '/'] <:+: text) : ∃ body more, Closes text body more := by
  induction text with
  | nil => cases List.infix_nil.mp found
  | cons c text ih =>
      by_cases here : ['*', '/'] <+: c :: text
      · rcases here with ⟨more, same⟩
        exact ⟨[], more, same.symm, fun found => nomatch List.infix_nil.mp found⟩
      · have later := (List.infix_cons_iff.mp found).resolve_left here
        rcases ih later with ⟨body, more, closes⟩
        refine ⟨c :: body, more, congrArg (List.cons c) closes.text_eq, fun found => ?_⟩
        rcases List.infix_cons_iff.mp found with first | second
        · refine here (first.trans ?_)
          rw [closes.text_eq]
          exact ⟨'*' :: '/' :: more, rfl⟩
        · exact closes.first second

theorem nextToken_comment (text : List Char) :
    ∃ t s', nextToken (Lexer.new (String.ofList (opened text))) = (.ok t, s') ∧ t.kind ≠ .eof ∧
      s'.rest = (if text.head? = some '*' then afterComment text.tail else afterComment text) ∧
      s'.chars = opened text ∧ s'.pos + s'.rest.length = (opened text).length := by
  have source := rest_new (opened text)
  rcases readBlockComment_succeeds (Lexer.new (String.ofList (opened text))) with ⟨t, s', run⟩
  have keeps := (readBlockComment_ok source run).1
  rcases keeps.tracks with ⟨cs, tracks⟩
  refine ⟨t, s', (nextToken_opened text).trans run, keeps.inside, keeps.rest, ?_, ?_⟩
  · rw [tracks.chars]
    exact String.toList_ofList
  · have length := congrArg List.length (source.symm.trans tracks.toMoves.rest)
    rw [tracks.pos, length, List.length_append]
    exact congrArg (· + s'.rest.length) (Nat.zero_add _)

theorem tokenize_unclosed (unclosed : ¬ ['*', '/'] <:+: text) :
    ∃ tokens, tokenize (String.ofList (opened text)) = some (.ok tokens) := by
  rcases nextToken_comment text with ⟨t, s', run, inside, rest, -⟩
  have tail : ¬ ['*', '/'] <:+: text.tail := fun found =>
    unclosed (found.trans (List.tail_suffix text).isInfix)
  rw [afterComment_unclosed unclosed, afterComment_unclosed tail, ite_self] at rest
  rw [tokenize, String.toList_ofList, opened, List.length_cons, List.length_cons, tokenizeLoop]
  rw [opened] at run
  rw [run]
  dsimp only
  rw [if_neg inside, tokenizeLoop, nextToken_end rest]
  exact ⟨_, rfl⟩

theorem not_ends_empty (empty : ['*', '/'] <+: text) : ¬ Ends text := by
  rcases empty with ⟨more, rfl⟩
  intro ends
  have whole := ends.closed [] more ⟨rfl, fun found => nomatch List.infix_nil.mp found⟩
  rcases nextToken_comment (['*', '/'] ++ more) with ⟨t, s', run, -, rest, -, length⟩
  rw [run] at whole
  have behind : s'.rest = afterComment more := rest
  have pos : s'.pos = 4 := whole.1
  -- The comment ends behind four characters only if nothing follows.
  by_cases last : more = []
  · subst last
    have comment : lexed (opened (['*', '/'] ++ [])) = some (.ok [.docComment "/", .eof]) := rfl
    have nothing : lexed [] = some (.ok [.eof]) := rfl
    have kinds := whole.2
    rw [comment, nothing] at kinds
    cases kinds
  · have less := afterComment_lt last
    rw [behind, pos, opened, List.length_cons, List.length_cons, List.length_append] at length
    have two : ['*', '/'].length = 2 := rfl
    omega

/-- A block comment ends where it should if and only if it is closed and not
empty. -/
theorem ends_iff (text : List Char) :
    Ends text ↔ ['*', '/'] <:+: text ∧ ¬ ['*', '/'] <+: text := by
  constructor
  · intro ends
    refine ⟨?_, fun empty => not_ends_empty empty ends⟩
    refine Classical.byContradiction fun unclosed => ?_
    have none : ∀ body more, ¬ Closes text body more := fun body more closes =>
      unclosed ⟨body, more, by rw [closes.text_eq, List.append_assoc]; rfl⟩
    rcases ends.unclosed none with ⟨errors, rejected⟩
    rcases tokenize_unclosed unclosed with ⟨tokens, accepted⟩
    rw [rejected] at accepted
    cases accepted
  · rintro ⟨found, notEmpty⟩
    refine ⟨fun body more closes => closes.lexed_eq ?_, fun unclosed => ?_⟩
    · rintro rfl
      exact notEmpty ⟨more, closes.text_eq.symm⟩
    · rcases closes_of_infix found with ⟨body, more, closes⟩
      exact absurd closes (unclosed body more)

/-- Behind `/**/` the text `a */ b` loses its first word. -/
theorem not_ends_swallowed : ¬ Ends "*/ a */ b".toList := by
  intro ends
  have kinds := (ends.closed [] " a */ b".toList ⟨rfl, by decide⟩).2
  have comment : lexed (opened "*/ a */ b".toList) =
      some (.ok [.docComment "/ a ", .ident "b", .eof]) := rfl
  have alone : lexed " a */ b".toList =
      some (.ok [.ident "a", .star, .slash, .ident "b", .eof]) := rfl
  rw [comment, alone] at kinds
  cases kinds

end Tinox.Lexer
