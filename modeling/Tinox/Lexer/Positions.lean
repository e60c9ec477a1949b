import Tinox.Lexer.Moves

/-!
# Source positions

The counters of the lexer along a run.  White space, comments and raw strings
keep line and column right, and so does every reader that only bumps if it
meets no line break.  The spans of an accepted text are exact if and only if
none of its lexemes spoils the counters.
-/

namespace Tinox.Lexer

open Tinox.Syntax
open Read

/-- Line and column are those of the text in front of the position. -/
structure Lexer.InStep (s : Lexer) : Prop where
  line : s.line = (lineOf s.past).toUInt32
  column : s.column = (columnOf s.past).toUInt32

/-- A move that keeps the counters in step. -/
structure Tracks (s : Lexer) (cs : List Char) (s' : Lexer) : Prop extends Moves s cs s' where
  inStep : s.InStep → s'.InStep

variable {s s' : Lexer} {t : Token} {more : List Char}

theorem Tracks.trans {t u : Lexer} {first second : List Char} (before : Tracks s first t)
    (after : Tracks t second u) : Tracks s (first ++ second) u where
  toMoves := before.toMoves.trans after.toMoves
  inStep := after.inStep ∘ before.inStep

/-- Bumping keeps the counters in step unless it meets a line break. -/
theorem Passes.tracks {cs : List Char} (passes : Passes s cs s') (flat : '\n' ∉ cs) :
    Tracks s cs s' where
  toMoves := passes.toMoves
  inStep := fun inStep => by
    constructor
    · rw [passes.line, inStep.line, passes.past, lineOf_append_of_notMem flat]
    · rw [passes.column, inStep.column, passes.past, columnOf_append_of_notMem flat]
      exact (UInt32.ofNat_add _ _).symm

theorem Tracks.refl (s : Lexer) : Tracks s [] s :=
  (Passes.refl s).tracks (by simp)

theorem Tracks.bump {c : Char} (text : s.rest = c :: more) (flat : c ≠ '\n') :
    Tracks s [c] s.bump :=
  (Passes.bump text).tracks (by simpa using flat.symm)

theorem tracks_newline (text : s.rest = '\n' :: more)
    (same : s' = { s with pos := s.pos + 1, line := s.line + 1, column := 1 }) :
    Tracks s ['\n'] s' := by
  subst same
  have moves : Moves s ['\n'] { s with pos := s.pos + 1, line := s.line + 1, column := 1 } := by
    refine ⟨rfl, rfl, rfl, rfl, ?_⟩
    have next := s.rest_bump
    rw [text] at next
    rw [text]
    exact congrArg (List.cons '\n') next.symm
  refine ⟨moves, fun inStep => ⟨?_, ?_⟩⟩
  · rw [moves.past, lineOf_append]
    change s.line + 1 = _
    rw [inStep.line]
    exact (UInt32.ofNat_add _ 1).symm
  · rw [moves.past, columnOf_snoc, if_pos rfl]
    rfl

/-- A token is made with the counters in step. -/
structure Keeps (s : Lexer) (t : Token) (s' : Lexer) (rest : List Char) : Prop where
  tracks : ∃ cs, Tracks s cs s'
  rest : s'.rest = rest
  span : t.span = s'.mkSpan
  inside : t.kind ≠ .eof

theorem Keeps.after {u : Lexer} {cs rest : List Char} (before : Tracks s cs u)
    (keeps : Keeps u t s' rest) : Keeps s t s' rest where
  tracks := keeps.tracks.elim fun _ tracks => ⟨_, before.trans tracks⟩
  rest := keeps.rest
  span := keeps.span
  inside := keeps.inside

theorem keeps_token {kind : TokenKind} (inside : kind ≠ .eof) (run : token kind s = (.ok t, s')) :
    Keeps s t s' s.rest := by
  cases run
  exact ⟨⟨[], Tracks.refl s⟩, rfl, rfl, inside⟩

/-! ## Comments -/

variable {count : Nat}

theorem readLineComment_ok (text : s.rest = '/' :: '/' :: more)
    (run : readLineComment s = (.ok t, s')) :
    Keeps s t s' (more.dropWhile (· != '\n')) ∧ t.kind.isTrivia = true := by
  have second := Lexer.rest_bump_cons text
  have third := Lexer.rest_bump_cons second
  have loop := passes_bumpWhile
    (fun s => decide (s.pos < s.chars.length) && s.peek != '\n') (fun c => c != '\n') (by
      intro u c more text
      have inside : u.pos < u.chars.length := by
        have length := u.length_rest
        rw [text, List.length_cons] at length
        omega
      simp [inside, Lexer.peek_of_rest text]) s.bump.bump
  rw [Lexer.length_rest, third] at loop
  have flat : '\n' ∉ more.takeWhile (· != '\n') := notMem_takeWhile _ (by decide) more
  have whole := ((Tracks.bump text (by decide)).trans (Tracks.bump second (by decide))).trans
    (loop.1.tracks flat)
  have made : token _ _ = (.ok t, s') := run
  have token := keeps_token (by simp) made
  rw [loop.2] at token
  refine ⟨token.after whole, ?_⟩
  cases made
  rfl

theorem blockComment_kind {isDoc : Bool} {text : List Char}
    (run : blockComment isDoc text s = (.ok t, s')) :
    Keeps s t s' s.rest ∧ t.kind.isTrivia = !isDoc := by
  cases isDoc with
  | false | true =>
      refine ⟨keeps_token (by simp) run, ?_⟩
      cases run
      rfl

theorem afterComment_cons {c : Char} {rest : List Char}
    (inside : ¬ (c = '*' ∧ rest.head? = some '/')) :
    afterComment (c :: rest) = afterComment rest := by
  rw [afterComment]
  rintro more rfl rfl
  exact inside ⟨rfl, rfl⟩

theorem blockCommentLoop_ok {isDoc : Bool} {start : Nat} (enough : count = s.rest.length)
    (run : blockCommentLoop isDoc start count s = (.ok t, s')) :
    Keeps s t s' (afterComment s.rest) ∧ t.kind.isTrivia = !isDoc := by
  induction count generalizing s with
  | zero =>
      have empty : s.rest = [] := List.length_eq_zero_iff.mp enough.symm
      rw [blockCommentLoop, bind_get] at run
      have made := blockComment_kind run
      rw [empty] at made
      rw [empty]
      exact made
  | succ count ih =>
      cases text : s.rest with
      | nil => rw [text] at enough; cases enough
      | cons c more =>
          have next := Lexer.rest_bump_cons text
          have rounds : count = more.length := by
            rw [text] at enough
            exact Nat.succ.inj enough
          rw [blockCommentLoop, bind_peek, bind_peekNext, Lexer.peek_of_rest text] at run
          have ahead : s.peekNext = more.headD '\x00' := by
            rw [Lexer.peekNext, Lexer.ahead_eq, text]
            cases more <;> rfl
          by_cases closes : c = '*' ∧ s.peekNext = '/'
          · rw [if_pos closes, bind_get, bind_bump, bind_bump] at run
            rcases closes with ⟨rfl, slash⟩
            have second : s.bump.rest = '/' :: more.tail := by
              rw [← next]
              exact Lexer.rest_of_peek slash (by decide)
            have third := Lexer.rest_bump_cons second
            have whole := (Tracks.bump text (by decide)).trans (Tracks.bump second (by decide))
            rw [next] at second
            rw [second, afterComment, ← third]
            exact ⟨(blockComment_kind run).1.after whole, (blockComment_kind run).2⟩
          · rw [if_neg closes] at run
            have inside : ¬ (c = '*' ∧ more.head? = some '/') := by
              rintro ⟨star, slash⟩
              refine closes ⟨star, ?_⟩
              rw [ahead, List.headD_eq_head?_getD, slash]
              rfl
            rw [afterComment_cons inside]
            rw [bind_peek, Lexer.peek_of_rest text] at run
            by_cases newline : c = '\n'
            · simp only [if_pos newline, bind_modify, bind_bump] at run
              subst newline
              have rest : ({ s with line := s.line + 1, column := 0 } : Lexer).bump.rest = more :=
                next
              have tail := ih (by rw [rest]; exact rounds) run
              rw [rest] at tail
              exact ⟨tail.1.after (tracks_newline text rfl), tail.2⟩
            · simp only [if_neg newline, bind_bump] at run
              have tail := ih (by rw [next]; exact rounds) run
              rw [next] at tail
              exact ⟨tail.1.after (Tracks.bump text newline), tail.2⟩

theorem readBlockComment_ok (text : s.rest = '/' :: '*' :: more)
    (run : readBlockComment s = (.ok t, s')) :
    Keeps s t s' (if more.head? = some '*' then afterComment more.tail else afterComment more) ∧
      t.kind.isTrivia = decide (more.head? ≠ some '*') := by
  have second := Lexer.rest_bump_cons text
  have third := Lexer.rest_bump_cons second
  have opened := (Tracks.bump text (by decide)).trans (Tracks.bump second (by decide))
  rw [readBlockComment, bind_bump, bind_bump, bind_peek] at run
  by_cases doc : s.bump.bump.peek = '*'
  · have star := Lexer.rest_of_peek doc (by decide)
    rw [third] at star
    rw [star, List.head?_cons, if_pos rfl, List.tail_cons]
    simp only [doc, decide_true, if_true, bind_bump, bind_get] at run
    have fourth : s.bump.bump.bump.rest = more.tail := by rw [Lexer.rest_bump, third]
    have body := blockCommentLoop_ok (Lexer.length_rest _).symm run
    rw [fourth] at body
    exact ⟨body.1.after (opened.trans (Tracks.bump (third.trans star) (by decide))), body.2⟩
  · have plain : more.head? ≠ some '*' := by
      intro star
      rw [Lexer.peek_eq, third, List.headD_eq_head?_getD, star] at doc
      exact doc rfl
    rw [if_neg plain]
    simp only [doc, decide_false, if_false, bind_get] at run
    have body := blockCommentLoop_ok (Lexer.length_rest _).symm run
    rw [third] at body
    rw [decide_eq_true plain]
    exact ⟨body.1.after opened, body.2⟩

variable {hashes : Nat}

theorem readHashes_stop (other : s.peek ≠ '#') : readHashes count hashes s = (.ok hashes, s) := by
  cases count with
  | zero => rfl
  | succ count =>
      rw [readHashes, bind_peek, if_neg other]
      rfl

theorem readHashes_hash (hash : s.peek = '#') :
    readHashes (count + 1) hashes s = readHashes count (hashes + 1) s.bump := by
  rw [readHashes, bind_peek, if_pos hash, bind_bump]

theorem rawStringLoop_ok {start : Nat} (enough : count = s.rest.length)
    (run : rawStringLoop hashes start count s = (.ok t, s')) :
    Keeps s t s' (afterRawString hashes s.rest) ∧ t.kind.isTrivia = false := by
  induction count generalizing s with
  | zero => exact absurd run fail_ok
  | succ count ih =>
      cases text : s.rest with
      | nil => rw [text] at enough; cases enough
      | cons c more =>
          have next := Lexer.rest_bump_cons text
          have rounds : count = more.length := by
            rw [text] at enough
            exact Nat.succ.inj enough
          have behind : s.chars.drop (s.pos + 1) = more := next
          rw [rawStringLoop, bind_peek, bind_get, Lexer.peek_of_rest text, behind] at run
          rw [afterRawString]
          by_cases closes : c = '"' ∧ more.take hashes = List.replicate hashes '#'
          · rw [if_pos closes]
            rw [if_pos ⟨closes.1, decide_eq_true closes.2⟩, bind_get, bind_modify] at run
            cases run
            refine ⟨⟨⟨'"' :: List.replicate hashes '#', ?_⟩, ?_, rfl, by simp⟩, rfl⟩
            · have flat : '\n' ∉ '"' :: List.replicate hashes '#' := by simp
              refine Passes.tracks ⟨⟨rfl, rfl, rfl, ?_, ?_⟩, rfl, ?_⟩ flat
              · rw [List.length_cons, List.length_replicate]
                exact Nat.add_right_comm s.pos 1 hashes
              · rw [text, closes.1, Lexer.rest, List.cons_append]
                simp only
                rw [Nat.add_assoc, Nat.add_comm 1, ← Nat.add_assoc, Nat.add_right_comm,
                  ← List.drop_drop, behind, ← closes.2, List.take_append_drop]
              · rw [List.length_cons, List.length_replicate]
                change UInt32.ofNat (s.column.toNat + (hashes + 1)) = _
                rw [UInt32.ofNat_add, UInt32.ofNat_toNat]
            · rw [Lexer.rest]
              simp only
              rw [← List.drop_drop, behind]
          · rw [if_neg closes]
            rw [if_neg (by simpa using closes)] at run
            by_cases newline : c = '\n'
            · simp only [if_pos newline, bind_modify, bind_bump] at run
              subst newline
              have rest : ({ s with line := s.line + 1, column := 0 } : Lexer).bump.rest = more :=
                next
              have tail := ih (by rw [rest]; exact rounds) run
              rw [rest] at tail
              exact ⟨tail.1.after (tracks_newline text rfl), tail.2⟩
            · simp only [if_neg newline, bind_bump] at run
              have tail := ih (by rw [next]; exact rounds) run
              rw [next] at tail
              exact ⟨tail.1.after (Tracks.bump text newline), tail.2⟩

theorem readRawString_ok (hashes : Nat) {s s' : Lexer} {t : Token} {more : List Char}
    (few : hashes ≤ 1) (text : s.rest = 'r' :: (List.replicate hashes '#' ++ '"' :: more))
    (run : readRawString s = (.ok t, s')) :
    Keeps s t s' (afterRawString hashes more) ∧ t.kind.isTrivia = false := by
  have first := Tracks.bump text (by decide)
  have next : s.bump.rest = List.replicate hashes '#' ++ '"' :: more := by
    rw [Lexer.rest_bump, text]
    rfl
  rw [readRawString, bind_peek, Lexer.peek_of_rest text] at run
  simp only [if_true, bind_bump, bind_get] at run
  -- The quote behind the hash signs opens the string.
  have body : ∀ u, Tracks s ('r' :: List.replicate hashes '#') u → u.rest = '"' :: more →
      readHashes (s.bump.chars.length - s.bump.pos) 0 s.bump = (.ok hashes, u) →
      Keeps s t s' (afterRawString hashes more) ∧ t.kind.isTrivia = false := by
    intro u opened quote counted
    rw [bind_ok] at run
    rcases run with ⟨found, v, counts, run⟩
    rw [counted] at counts
    cases counts
    rw [bind_peek, Lexer.peek_of_rest quote, if_neg (by simp), bind_bump, bind_get] at run
    have inside := Lexer.rest_bump_cons quote
    have string := rawStringLoop_ok (Lexer.length_rest _).symm run
    rw [inside] at string
    exact ⟨string.1.after (opened.trans (Tracks.bump quote (by decide))), string.2⟩
  match hashes, few with
  | 0, _ =>
      refine body s.bump first next (readHashes_stop ?_)
      rw [Lexer.peek_of_rest next]
      decide
  | 1, _ =>
      have second := Tracks.bump next (by decide)
      have quote := Lexer.rest_bump_cons next
      refine body s.bump.bump (first.trans second) quote ?_
      rw [← Lexer.length_rest, next]
      change readHashes (_ + 1) 0 s.bump = _
      rw [readHashes_hash (Lexer.peek_of_rest next), readHashes_stop]
      rw [Lexer.peek_of_rest quote]
      decide

/-! ## One token -/

/-- What reading one token in front of the end of the text does: the lexeme at
the position is consumed, and the counters stay in step with it or do not. -/
inductive Step (s : Lexer) (t : Token) (s' : Lexer) : Prop where
  /-- White space or a plain comment. -/
  | blank (cs : List Char) (tracks : Tracks s cs s') (trivia : t.kind.isTrivia = true)
      (found : lexeme s.past.getLast? s.rest = (.blank, s'.rest)) : Step s t s'
  /-- Any other token that may hold a line break by mistake. -/
  | flat (cs : List Char) (moves : Tracks s cs s' ∨ Passes s cs s')
      (kept : t.kind.isTrivia = false) (span : t.span = s'.mkSpan)
      (found : lexeme s.past.getLast? s.rest = (.flat, s'.rest)) : Step s t s'
  /-- An operator. -/
  | symbols (cs : List Char) (passes : Passes s cs s') (kept : t.kind.isTrivia = false)
      (span : t.span = s'.mkSpan) (nonempty : cs ≠ []) (flat : '\n' ∉ cs)
      (same : Tidy s.past.getLast? s.rest ↔ Tidy cs.getLast? s'.rest) : Step s t s'
  /-- An integer with a suffix. -/
  | slip (slips : Slips s t s' s'.rest)
      (found : lexeme s.past.getLast? s.rest = (.suffixedInteger, s'.rest)) : Step s t s'

theorem Consumes.step {s s' : Lexer} {t : Token} {rest : List Char}
    (consumes : Consumes s t s' rest)
    (found : lexeme s.past.getLast? s.rest = (.flat, rest)) : Step s t s' ∧ t.kind ≠ .eof := by
  rcases consumes.passes with ⟨cs, passes⟩
  rw [← consumes.rest] at found
  exact ⟨.flat cs (.inr passes) consumes.kept consumes.span found, consumes.inside⟩

theorem Keeps.step {s s' : Lexer} {t : Token} {rest : List Char}
    (keeps : Keeps s t s' rest) (shape : Shape) (trivia : t.kind.isTrivia = decide (shape = .blank))
    (other : shape ≠ .suffixedInteger)
    (found : lexeme s.past.getLast? s.rest = (shape, rest)) : Step s t s' ∧ t.kind ≠ .eof := by
  rcases keeps.tracks with ⟨cs, tracks⟩
  rw [← keeps.rest] at found
  cases shape with
  | blank => exact ⟨.blank cs tracks trivia found, keeps.inside⟩
  | flat => exact ⟨.flat cs (.inl tracks) trivia keeps.span found, keeps.inside⟩
  | suffixedInteger => exact absurd rfl other

theorem Counts.step {s s' : Lexer} {t : Token} {outcome : Shape × List Char}
    (counts : Counts outcome s t s')
    (found : lexeme s.past.getLast? s.rest = outcome) : Step s t s' ∧ t.kind ≠ .eof := by
  rcases outcome with ⟨shape, rest⟩
  rcases counts with ⟨rfl, consumes⟩ | ⟨rfl, slips⟩
  · exact consumes.step found
  · have same : s'.rest = rest := by
      rcases slips.passes with ⟨cs, u, length, passes, flat, rest, bounds, rfl⟩
      exact rest
    rw [← same] at found slips
    exact ⟨.slip slips found, slips.inside⟩

theorem symbolStep {s s' : Lexer} {t : Token} {c : Char} {more : List Char} (text : s.rest = c :: more)
    (read : ∃ cs, Passes s (c :: cs) s' ∧ (∀ d ∈ cs, (symbolReader d).isSome) ∧
      t.span = s'.mkSpan ∧ t.kind.isTrivia = false ∧ t.kind ≠ .eof) (other : c ≠ '\n')
    (found : lexeme s.past.getLast? s.rest = (.flat, more)) : Step s t s' ∧ t.kind ≠ .eof := by
  rcases read with ⟨cs, passes, symbols, span, kept, inside⟩
  have rest := passes.rest
  rw [text, List.cons_append] at rest
  injection rest with _ rest
  rw [rest] at found
  have flat : '\n' ∉ cs := fun member => symbol_ne_newline (symbols _ member) rfl
  have head : '\n' ∉ [c] := by simpa using other.symm
  refine ⟨.symbols (c :: cs) passes kept span (by simp) (by simp [other.symm, flat]) ?_, inside⟩
  rw [passes.rest] at found ⊢
  rw [List.cons_append, ← List.singleton_append] at found ⊢
  rw [tidy_iff (by simp) found]
  have inStep : Shape.flat.InStep [c] := .inr ⟨rfl, head⟩
  rw [and_iff_right inStep]
  cases cs with
  | nil => rfl
  | cons d cs => exact tidy_symbols symbols (by simp) s'.rest

theorem readToken_ok {s s' : Lexer} {t : Token} {c : Char} {more : List Char}
    (text : s.rest = c :: more) (run : readToken c s.peekNext s = (.ok t, s')) :
    Step s t s' ∧ t.kind ≠ .eof := by
  have next : s.peekNext = more.headD '\x00' := by
    rw [Lexer.peekNext, Lexer.ahead_eq, text]
    cases more <;> rfl
  have second : ∀ d, d ≠ '\x00' → (s.peekNext = d ↔ more.head? = some d) := by
    intro d visible
    rw [next]
    cases more with
    | nil => simp [visible.symm]
    | cons e rest => simp
  unfold readToken at run
  by_cases newline : c = '\n'
  · rw [if_pos newline] at run
    subst newline
    rw [bind_bump, bind_modify] at run
    cases run
    have tracks := tracks_newline text rfl
    refine ⟨.blank ['\n'] tracks rfl ?_, by simp⟩
    have rest := tracks.rest
    rw [text] at rest ⊢
    rw [List.singleton_append] at rest
    injection rest with _ same
    rw [lexeme, if_pos (.inl rfl), same]
    rfl
  rw [if_neg newline] at run
  by_cases blank : c = ' ' ∨ c = '\t' ∨ c = '\r'
  · rw [if_pos blank, single, bind_bump] at run
    have made := (keeps_token (by simp) run).after (Tracks.bump text newline)
    cases run
    refine made.step .blank rfl (by simp) ?_
    rw [text, lexeme, if_pos (.inr blank), Lexer.rest_bump, text]
    rfl
  rw [if_neg blank] at run
  have visible : ¬ (c = '\n' ∨ c = ' ' ∨ c = '\t' ∨ c = '\r') := by simp [newline, blank]
  by_cases slashed : c = '/'
  · rw [if_pos slashed] at run
    subst slashed
    have found : lexeme s.past.getLast? s.rest = slash more := by
      rw [text, lexeme, if_neg visible, if_pos rfl]
    cases more with
    | nil =>
        rw [next] at run
        simp only [List.headD_nil, show ¬ ('\x00' = '/') by decide,
          show ¬ ('\x00' = '*') by decide, if_false] at run
        exact symbolStep text (readOperator_ok text run) (by decide) found
    | cons d rest =>
        rw [next, List.headD_cons] at run
        by_cases line : d = '/'
        · rw [if_pos line] at run
          subst line
          have made := readLineComment_ok text run
          exact made.1.step .blank made.2 (by simp) found
        · rw [if_neg line] at run
          rw [slash, if_neg line] at found
          by_cases block : d = '*'
          · rw [if_pos block] at run found
            subst block
            have made := readBlockComment_ok text run
            by_cases doc : rest.head? = some '*'
            · rw [if_pos doc] at made found
              exact made.1.step .flat (by simp [made.2, doc]) (by simp) found
            · rw [if_neg doc] at made found
              exact made.1.step .blank (by simp [made.2, doc]) (by simp) found
          · rw [if_neg block] at run found
            exact symbolStep text (readOperator_ok text run) (by decide) found
  rw [if_neg slashed] at run
  by_cases quote : c = '"'
  · rw [if_pos quote] at run
    subst quote
    refine (readString_ok text run).step ?_
    rw [text, lexeme, if_neg visible, if_neg slashed, if_pos rfl]
  rw [if_neg quote] at run
  have word : readIdentOrKeyword s = (.ok t, s') → isIdentStart c = true →
      lexeme s.past.getLast? s.rest = (.flat, more.dropWhile isIdentPart) →
      Step s t s' ∧ t.kind ≠ .eof := by
    intro run start found
    refine (readIdentOrKeyword_ok run).step ?_
    rw [found, text, List.dropWhile_cons_of_pos]
    rw [isIdentPart, start]
    rfl
  by_cases letter : c = 'r'
  · subst letter
    rw [if_pos rfl, bind_get] at run
    by_cases plain : more.head? = some '"'
    · rw [if_pos (.inl ((second _ (by decide)).mpr plain))] at run
      cases more with
      | nil => cases plain
      | cons d rest =>
          cases plain
          have made := readRawString_ok 0 (by decide) text run
          refine made.1.step .flat made.2 (by simp) ?_
          rw [text]
          rfl
    · by_cases hashed : more.take 2 = ['#', '"']
      · have split : more = '#' :: '"' :: more.drop 2 := by
          have parts := List.take_append_drop 2 more
          rw [hashed] at parts
          exact parts.symm
        rw [split] at text next
        have third : s.ahead 2 = '"' := by rw [Lexer.ahead_eq, text]; rfl
        rw [if_pos (.inr ⟨next, third⟩)] at run
        have made := readRawString_ok 1 (by decide) text run
        refine made.1.step .flat made.2 (by simp) ?_
        rw [text]
        rfl
      · rw [if_neg] at run
        · refine word run (by decide) ?_
          rw [text, lexeme, if_neg visible, if_neg slashed, if_neg quote,
            if_neg (fun both => plain both.2), if_neg (fun both => hashed both.2),
            if_neg (by decide), if_neg (by decide), if_neg (by simp), if_pos (by decide)]
        · rintro (same | ⟨hash, third⟩)
          · exact plain ((second _ (by decide)).mp same)
          · refine hashed ?_
            rw [second _ (by decide)] at hash
            rw [Lexer.ahead_eq, text] at third
            rcases more with _ | ⟨d, _ | ⟨e, rest⟩⟩
            · cases hash
            · exact absurd third (by simp)
            · cases hash
              change e = '"' at third
              rw [third]
              rfl
  rw [if_neg letter] at run
  have unraw : lexeme s.past.getLast? s.rest =
      if c = '\'' then (.flat, afterChar more)
      else if isDigit c then number s.past.getLast? s.rest
      else if c = 'b' ∧ more.head? = some '\'' then (.flat, afterChar (more.drop 1))
      else if isIdentStart c then (.flat, more.dropWhile isIdentPart)
      else (.flat, more) := by
    rw [text, lexeme, if_neg visible, if_neg slashed, if_neg quote,
      if_neg (fun both => letter both.1), if_neg (fun both => letter both.1)]
  by_cases char : c = '\''
  · rw [if_pos char] at run unraw
    exact (readChar_ok text run).step unraw
  rw [if_neg char] at run unraw
  by_cases digit : isDigit c
  · rw [if_pos digit] at run unraw
    exact (readNumber_ok text run).step unraw
  rw [if_neg digit] at run unraw
  by_cases start : isIdentStart c
  · rw [if_pos start] at run
    by_cases byte : c = 'b' ∧ more.head? = some '\''
    · rw [if_pos ⟨byte.1, (second _ (by decide)).mpr byte.2⟩, bind_bump] at run
      rw [if_pos byte] at unraw
      cases more with
      | nil => cases byte.2
      | cons d rest =>
          have next := Lexer.rest_bump_cons text
          exact ((readByteLiteral_ok next run).after (Passes.bump text)).step unraw
    · rw [if_neg] at run
      · rw [if_neg byte, if_pos start] at unraw
        exact word run start unraw
      · rintro ⟨b, apostrophe⟩
        exact byte ⟨b, (second _ (by decide)).mp apostrophe⟩
  rw [if_neg start] at run
  have notByte : ¬ (c = 'b' ∧ more.head? = some '\'') := by
    rintro ⟨rfl, _⟩
    exact start (by decide)
  rw [if_neg notByte, if_neg start] at unraw
  cases reader : symbolReader c with
  | none =>
      rw [reader] at run
      cases run
  | some read =>
      rw [reader] at run
      rcases symbolReader_bump reader s.bump with ⟨next, rfl, after⟩
      exact symbolStep text (operator_ok text after run) newline unraw

/-! ## Tokens in place -/

/-- A lexer at the start of a token. -/
def Lexer.begin (s : Lexer) : Lexer :=
  { s with start := s.pos, startColumn := s.column }

theorem nextToken_end {s : Lexer} (finished : s.rest = []) :
    nextToken s = (.ok ⟨.eof, s.begin.mkPos, s.begin.mkPos⟩, s.begin) := by
  have length := s.length_rest
  rw [finished] at length
  have inside : s.begin.chars.length ≤ s.begin.pos := Nat.le_of_sub_eq_zero length.symm
  rw [nextToken, bind_modify]
  change (atEnd >>= _) s.begin = _
  rw [bind_atEnd, if_pos (decide_eq_true inside)]
  rfl

theorem nextToken_read {s : Lexer} (unfinished : s.rest ≠ []) :
    nextToken s = readToken s.begin.peek s.begin.peekNext s.begin := by
  have outside : ¬ s.begin.chars.length ≤ s.begin.pos := by
    intro finished
    have length := s.length_rest
    have none : s.chars.length - s.pos = 0 := Nat.sub_eq_zero_of_le finished
    rw [none] at length
    exact unfinished (List.length_eq_zero_iff.mp length)
  rw [nextToken, bind_modify]
  change (atEnd >>= _) s.begin = _
  rw [bind_atEnd, if_neg (by simp [outside]), bind_peek, bind_peekNext]

theorem nextToken_step {s s' : Lexer} {t : Token} (unfinished : s.rest ≠ [])
    (run : nextToken s = (.ok t, s')) : Step s.begin t s' ∧ t.kind ≠ .eof := by
  rw [nextToken_read unfinished] at run
  cases text : s.rest with
  | nil => exact absurd text unfinished
  | cons c more =>
      have begun : s.begin.rest = c :: more := text
      rw [Lexer.peek_of_rest begun] at run
      exact readToken_ok begun run

theorem toNat_toUInt32 {n : Nat} (small : n < 2 ^ 32) : n.toUInt32.toNat = n :=
  UInt32.toNat_ofNat_of_lt' small

theorem Pos.InPlace.line_eq {text : List Char} {p : Pos} {offset line : Nat} (place : p.InPlace text)
    (fits : Fits text) (inside : offset ≤ text.length) (sameOffset : p.offset = offset.toUInt32)
    (sameLine : p.line = line.toUInt32) (small : line < 2 ^ 32) :
    line = lineOf (text.take offset) := by
  have exact := place.1
  rw [sameOffset, sameLine, toNat_toUInt32 small,
    toNat_toUInt32 (Nat.lt_of_le_of_lt inside fits.length)] at exact
  exact exact

theorem Pos.InPlace.column_eq {text : List Char} {p : Pos} {offset : Nat} (place : p.InPlace text)
    (fits : Fits text) (inside : offset ≤ text.length) (sameOffset : p.offset = offset.toUInt32) :
    p.column = (columnOf (text.take offset)).toUInt32 := by
  have exact := place.2
  rw [sameOffset, toNat_toUInt32 (Nat.lt_of_le_of_lt inside fits.length)] at exact
  rw [← exact]
  exact UInt32.ofNat_toNat.symm

theorem Lexer.InStep.inPlace {s : Lexer} (inStep : s.InStep) (fits : Fits s.chars)
    (inside : s.pos ≤ s.chars.length) :
    (⟨s.pos.toUInt32, s.line, s.column⟩ : Pos).InPlace s.chars := by
  have offset := toNat_toUInt32 (Nat.lt_of_le_of_lt inside fits.length)
  constructor
  · rw [inStep.line, offset]
    exact toNat_toUInt32 (fits.lineOf_take s.pos)
  · rw [inStep.column, offset]
    exact toNat_toUInt32 (fits.columnOf_take s.pos)

theorem Lexer.InStep.begin {s : Lexer} (inStep : s.InStep) : s.begin.InStep :=
  ⟨inStep.line, inStep.column⟩

theorem Moves.inside {s s' : Lexer} {cs : List Char} (moves : Moves s cs s')
    (inside : s.pos ≤ s.chars.length) : s'.pos ≤ s'.chars.length := by
  have length := s.length_rest
  rw [moves.rest, List.length_append] at length
  rw [moves.chars, moves.pos]
  omega

/-- A reader has moved over a lexeme, and the text is tidy from there on as
before. -/
structure Advances (s : Lexer) (cs : List Char) (s' : Lexer) : Prop extends Tracks s.begin cs s' where
  nonempty : cs ≠ []
  same : Tidy s.past.getLast? s.rest ↔ Tidy s'.past.getLast? s'.rest

theorem Moves.getLast?_past {s s' : Lexer} {cs : List Char} (moves : Moves s cs s')
    (nonempty : cs ≠ []) : s'.past.getLast? = cs.getLast? := by
  rw [moves.past, List.getLast?_append]
  cases h : cs.getLast? with
  | none => exact absurd (List.getLast?_eq_none_iff.mp h) nonempty
  | some c => rfl

theorem advances_of_tracks {s s' : Lexer} {cs : List Char} {shape : Shape}
    (unfinished : s.rest ≠ []) (tracks : Tracks s.begin cs s')
    (found : lexeme s.past.getLast? s.rest = (shape, s'.rest)) (inStep : shape.InStep cs) :
    Advances s cs s' := by
  have split : s.rest = cs ++ s'.rest := tracks.rest
  rw [split] at unfinished found
  have nonempty := lexeme_ne_nil unfinished found
  refine ⟨tracks, nonempty, ?_⟩
  rw [split, tidy_iff unfinished found, and_iff_right inStep,
    tracks.toMoves.getLast?_past nonempty]

/-- Reading a token keeps the counters in step and yields an exact span, or the
text is not tidy and the span is not exact. -/
theorem Step.outcome {s s' : Lexer} {t : Token} (step : Step s.begin t s')
    (unfinished : s.rest ≠ []) (inStep : s.InStep) (fits : Fits s.chars)
    (inside : s.pos ≤ s.chars.length) :
    (∃ cs, Advances s cs s' ∧
        (t.kind.isTrivia = false →
          t.span = ⟨⟨s.pos.toUInt32, s.line, s.column⟩, ⟨s'.pos.toUInt32, s'.line, s'.column⟩⟩)) ∨
      t.kind.isTrivia = false ∧ ¬ Tidy s.past.getLast? s.rest ∧
        ¬ (t.span.start.InPlace s.chars ∧ t.span.finish.InPlace s.chars) := by
  -- A reader that stays on the line starts its span where the token starts.
  have exactSpan : ∀ cs, Tracks s.begin cs s' → '\n' ∉ cs → t.span = s'.mkSpan →
      t.span = ⟨⟨s.pos.toUInt32, s.line, s.column⟩, ⟨s'.pos.toUInt32, s'.line, s'.column⟩⟩ := by
    intro cs tracks flat span
    have line : s'.line = s.line := by
      have past : s'.past = s.past ++ cs := tracks.past
      rw [(tracks.inStep inStep.begin).line, past, lineOf_append_of_notMem flat, inStep.line]
    rw [span, Lexer.mkSpan, tracks.start, tracks.startColumn, line]
    rfl
  cases step with
  | blank cs tracks trivia found =>
      refine .inl ⟨cs, advances_of_tracks unfinished tracks found (.inl rfl), ?_⟩
      intro kept
      rw [trivia] at kept
      cases kept
  | flat cs moves kept span found =>
      have moved : Moves s.begin cs s' := moves.elim Tracks.toMoves Passes.toMoves
      by_cases flat : '\n' ∈ cs
      · refine .inr ⟨kept, ?_, ?_⟩
        · have split : s.rest = cs ++ s'.rest := moved.rest
          have found' : lexeme s.past.getLast? s.rest = (.flat, s'.rest) := found
          rw [split] at unfinished found' ⊢
          rw [tidy_iff unfinished found']
          rintro ⟨(blank | one), -⟩
          · cases blank
          · exact one.2 flat
        · rintro ⟨startPlace, finishPlace⟩
          have past : s'.past = s.past ++ cs := moved.past
          have chars : s'.chars = s.chars := moved.chars
          have leaves := lineOf_lt_append flat s.past
          rw [span] at startPlace finishPlace
          rcases moves with tracks | passes
          · -- The start has the line on which the lexeme ends.
            have offset : s'.mkSpan.start.offset = s.pos.toUInt32 := by
              rw [Lexer.mkSpan, tracks.start]
              rfl
            have small : lineOf s'.past < 2 ^ 32 := by
              rw [Lexer.past, chars]
              exact fits.lineOf_take s'.pos
            have line := startPlace.line_eq fits inside offset
              (tracks.inStep inStep.begin).line small
            rw [past] at line
            exact absurd line (Nat.ne_of_gt leaves)
          · -- The end has the line on which the lexeme starts.
            have behind := moved.inside inside
            rw [chars] at behind
            have line := finishPlace.line_eq fits behind rfl
              (passes.line.trans inStep.line) (fits.lineOf_take s.pos)
            rw [← chars] at line
            have same : lineOf s.past = lineOf s'.past := line
            rw [past] at same
            exact absurd same (Nat.ne_of_lt leaves)
      · have tracks : Tracks s.begin cs s' := moves.elim id fun passes => passes.tracks flat
        exact .inl ⟨cs, advances_of_tracks unfinished tracks found (.inr ⟨rfl, flat⟩),
          fun _ => exactSpan cs tracks flat span⟩
  | symbols cs passes kept span nonempty flat same =>
      have tracks := passes.tracks flat
      refine .inl ⟨cs, ⟨tracks, nonempty, ?_⟩, fun _ => exactSpan cs tracks flat span⟩
      rw [tracks.toMoves.getLast?_past nonempty]
      exact same
  | slip slips found =>
      refine .inr ⟨slips.kept, ?_, ?_⟩
      · have found' : lexeme s.past.getLast? s.rest = (.suffixedInteger, s'.rest) := found
        rcases slips.passes with ⟨cs, u, length, passes, flat, rest, bounds, rfl⟩
        have split : s.rest = cs ++ u.rest := passes.rest
        rw [split] at unfinished found' ⊢
        have same : ({ u with column := u.column + length.toUInt32 } : Lexer).rest = u.rest := rfl
        rw [same] at found'
        rw [tidy_iff unfinished found']
        rintro ⟨(blank | one), -⟩
        · cases blank
        · cases one.1
      · rintro ⟨-, finishPlace⟩
        have span := slips.span
        rcases slips.passes with ⟨cs, u, length, passes, flat, rest, bounds, rfl⟩
        rw [span] at finishPlace
        have tracks := passes.tracks flat
        have chars : u.chars = s.chars := tracks.chars
        have behind := tracks.toMoves.inside inside
        rw [chars] at behind
        have column := finishPlace.column_eq fits behind rfl
        rw [← chars] at column
        have lost : u.column + length.toUInt32 = u.column :=
          column.trans (tracks.inStep inStep.begin).column.symm
        have none := congrArg UInt32.toNat lost
        rw [UInt32.toNat_add, toNat_toUInt32 (by omega)] at none
        have small := u.column.toNat_lt
        omega

/-! ## Runs -/

/-- A run without errors in front of the end of the text reads a token and goes
on. -/
theorem tokenizeLoop_cases {count : Nat} {s : Lexer} {tokens : List Token}
    (run : tokenizeLoop count s = some (tokens, [])) :
    s.rest = [] ∧ tokens = [⟨.eof, s.begin.mkPos, s.begin.mkPos⟩] ∨
      s.rest ≠ [] ∧ ∃ count' t s' rest, Step s.begin t s' ∧
        tokenizeLoop count' s' = some (rest, []) ∧ count = count' + 1 ∧
        tokens = if t.kind.isTrivia then rest else t :: rest := by
  cases count with
  | zero => cases run
  | succ count =>
      rw [tokenizeLoop] at run
      by_cases finished : s.rest = []
      · rw [nextToken_end finished] at run
        simp only [if_true, Option.some.injEq, Prod.mk.injEq, and_true] at run
        exact .inl ⟨finished, run.symm⟩
      · refine .inr ⟨finished, ?_⟩
        rcases read : nextToken s with ⟨e | t, s'⟩
        · rw [read] at run
          simp at run
        · rcases nextToken_step finished read with ⟨step, inside⟩
          rw [read] at run
          simp only [if_neg inside, Option.map_eq_some_iff] at run
          rcases run with ⟨⟨rest, errors⟩, loop, same⟩
          simp only [Prod.mk.injEq] at same
          rw [same.2] at loop
          exact ⟨count, t, s', rest, step, loop, rfl, same.1.symm⟩

theorem Step.moves {s s' : Lexer} {t : Token} (step : Step s t s') : ∃ cs, Moves s cs s' := by
  cases step with
  | blank cs tracks => exact ⟨cs, tracks.toMoves⟩
  | flat cs moves => exact ⟨cs, moves.elim Tracks.toMoves Passes.toMoves⟩
  | symbols cs passes => exact ⟨cs, passes.toMoves⟩
  | slip slips =>
      rcases slips.passes with ⟨cs, u, length, passes, flat, rest, bounds, rfl⟩
      exact ⟨cs, ⟨passes.chars, passes.start, passes.startColumn, passes.pos, passes.rest⟩⟩

theorem pos_of_finished {s : Lexer} (finished : s.rest = []) (inside : s.pos ≤ s.chars.length) :
    s.pos = s.chars.length := by
  have length := s.length_rest
  rw [finished] at length
  exact Nat.le_antisymm inside (Nat.le_of_sub_eq_zero length.symm)

theorem tokenizeLoop_last {count : Nat} {s : Lexer} {tokens : List Token}
    (run : tokenizeLoop count s = some (tokens, [])) (inside : s.pos ≤ s.chars.length) :
    ∃ t, tokens.getLast? = some t ∧ t ∈ tokens ∧
      t.span.finish.offset = s.chars.length.toUInt32 := by
  induction count generalizing s tokens with
  | zero => cases run
  | succ count ih =>
      rcases tokenizeLoop_cases run with ⟨finished, rfl⟩ |
        ⟨unfinished, count', t, s', rest, step, loop, same, rfl⟩
      · refine ⟨_, rfl, List.mem_singleton_self _, ?_⟩
        rw [← pos_of_finished finished inside]
        rfl
      · cases same
        rcases step.moves with ⟨cs, moves⟩
        have chars : s'.chars = s.chars := moves.chars
        rcases ih loop (moves.inside inside) with ⟨last, found, member, offset⟩
        rw [chars] at offset
        by_cases trivia : t.kind.isTrivia = true
        · rw [if_pos trivia]
          exact ⟨last, found, member, offset⟩
        · rw [if_neg trivia]
          refine ⟨last, ?_, List.mem_cons_of_mem t member, offset⟩
          rw [List.getLast?_cons, found]
          rfl

theorem tidy_of_inPlace {count : Nat} {s : Lexer} {tokens : List Token}
    (run : tokenizeLoop count s = some (tokens, [])) (inStep : s.InStep) (fits : Fits s.chars)
    (inside : s.pos ≤ s.chars.length)
    (inPlace : ∀ t ∈ tokens, t.span.start.InPlace s.chars ∧ t.span.finish.InPlace s.chars) :
    Tidy s.past.getLast? s.rest := by
  induction count generalizing s tokens with
  | zero => cases run
  | succ count ih =>
      rcases tokenizeLoop_cases run with ⟨finished, rfl⟩ |
        ⟨unfinished, count', t, s', rest, step, loop, same, rfl⟩
      · rw [finished]
        exact .done
      · cases same
        rcases step.outcome unfinished inStep fits inside with ⟨cs, advances, _⟩ |
          ⟨kept, _, outOfPlace⟩
        · have chars : s'.chars = s.chars := advances.chars
          rw [advances.same]
          refine ih loop (advances.inStep inStep.begin) (by rw [chars]; exact fits)
            (advances.toMoves.inside inside) ?_
          intro u member
          rw [chars]
          refine inPlace u ?_
          split
          · exact member
          · exact List.mem_cons_of_mem t member
        · rw [kept, if_neg Bool.false_ne_true] at inPlace
          exact absurd (inPlace t List.mem_cons_self) outOfPlace

/-- The tokens of a tidy text from a position on. -/
structure InOrder (text : List Char) (pos : Nat) (tokens : List Token) : Prop where
  behind : ∀ t ∈ tokens, pos ≤ t.span.start.offset.toNat
  forward : ∀ t ∈ tokens, t.span.start.offset ≤ t.span.finish.offset
  apart : tokens.Pairwise fun first second => first.span.finish.offset ≤ second.span.start.offset
  inPlace : ∀ t ∈ tokens, t.span.start.InPlace text ∧ t.span.finish.InPlace text

theorem inOrder_of_tidy {count : Nat} {s : Lexer} {tokens : List Token}
    (run : tokenizeLoop count s = some (tokens, [])) (inStep : s.InStep) (fits : Fits s.chars)
    (inside : s.pos ≤ s.chars.length) (tidy : Tidy s.past.getLast? s.rest) :
    InOrder s.chars s.pos tokens := by
  induction count generalizing s tokens with
  | zero => cases run
  | succ count ih =>
      have here := toNat_toUInt32 (Nat.lt_of_le_of_lt inside fits.length)
      rcases tokenizeLoop_cases run with ⟨finished, rfl⟩ |
        ⟨unfinished, count', t, s', rest, step, loop, same, rfl⟩
      · have place := inStep.inPlace fits inside
        refine ⟨?_, ?_, List.pairwise_singleton _ _, ?_⟩
        · intro u member
          rw [List.mem_singleton.mp member]
          exact Nat.le_of_eq here.symm
        · intro u member
          rw [List.mem_singleton.mp member]
          exact UInt32.le_refl _
        · intro u member
          rw [List.mem_singleton.mp member]
          exact ⟨place, place⟩
      · cases same
        rcases step.outcome unfinished inStep fits inside with ⟨cs, advances, exactSpan⟩ |
          ⟨_, untidy, _⟩
        · have chars : s'.chars = s.chars := advances.chars
          have inside' := advances.toMoves.inside inside
          have inStep' := advances.inStep inStep.begin
          have tail := ih loop inStep' (by rw [chars]; exact fits) inside'
            (advances.same.mp tidy)
          rw [chars] at tail
          have onwards : s.pos ≤ s'.pos := by
            rw [advances.pos]
            exact Nat.le_add_right s.pos cs.length
          have there : s'.pos.toUInt32.toNat = s'.pos := by
            rw [chars] at inside'
            exact toNat_toUInt32 (Nat.lt_of_le_of_lt inside' fits.length)
          by_cases trivia : t.kind.isTrivia = true
          · rw [if_pos trivia]
            exact ⟨fun u member => Nat.le_trans onwards (tail.behind u member), tail.forward,
              tail.apart, tail.inPlace⟩
          · rw [if_neg trivia]
            have span := exactSpan (Bool.eq_false_iff.mpr trivia)
            have place := inStep'.inPlace (by rw [chars]; exact fits) inside'
            rw [chars] at place
            refine ⟨?_, ?_, ?_, ?_⟩
            · rintro u (_ | ⟨_, member⟩)
              · rw [span]
                exact Nat.le_of_eq here.symm
              · exact Nat.le_trans onwards (tail.behind u member)
            · rintro u (_ | ⟨_, member⟩)
              · rw [span, UInt32.le_iff_toNat_le, here, there]
                exact onwards
              · exact tail.forward u member
            · refine List.pairwise_cons.mpr ⟨?_, tail.apart⟩
              intro u member
              rw [span, UInt32.le_iff_toNat_le, there]
              exact tail.behind u member
            · rintro u (_ | ⟨_, member⟩)
              · rw [span]
                exact ⟨inStep.inPlace fits inside, place⟩
              · exact tail.inPlace u member
        · exact absurd tidy untidy

theorem inStep_new (input : String) : (Lexer.new input).InStep :=
  ⟨rfl, rfl⟩

/-- The spans of an accepted text are exact if and only if its places are
32-bit numbers and every lexeme other than white space and plain comments is on
one line and not an integer with a suffix. -/
theorem tokenize_exact_iff {input : String} {tokens : List Token}
    (accepted : tokenize input = some (.ok tokens)) :
    Exact input.toList tokens ↔ Fits input.toList ∧ Tidy none input.toList := by
  have run : tokenizeLoop (input.toList.length + 1) (Lexer.new input) = some (tokens, []) := by
    rw [tokenize, Option.map_eq_some_iff] at accepted
    rcases accepted with ⟨⟨found, errors⟩, loop, same⟩
    dsimp only at same
    cases errors with
    | nil =>
        cases same
        exact loop
    | cons e errors => cases same
  have inside : (Lexer.new input).pos ≤ (Lexer.new input).chars.length := Nat.zero_le _
  rcases tokenizeLoop_last run inside with ⟨last, found, member, offset⟩
  have wrapped : last.span.finish.offset.toNat = input.toList.length % 2 ^ 32 := by
    rw [offset]
    exact UInt32.toNat_ofNat'
  constructor
  · intro exact
    have ends := exact.whole last (by rw [found]; rfl)
    have place := (exact.inPlace last member).2
    rw [Pos.InPlace, ends, List.take_length] at place
    have fits : Fits input.toList := by
      refine ⟨?_, ?_, ?_⟩
      · rw [← ends]
        exact UInt32.toNat_lt _
      · rw [← place.1]
        exact UInt32.toNat_lt _
      · rw [← place.2]
        exact UInt32.toNat_lt _
    exact ⟨fits, tidy_of_inPlace run (inStep_new input) fits inside exact.inPlace⟩
  · rintro ⟨fits, tidy⟩
    have order := inOrder_of_tidy run (inStep_new input) fits inside tidy
    refine ⟨order.forward, order.apart, order.inPlace, ?_⟩
    intro t same
    rw [found] at same
    cases same
    rw [wrapped, Nat.mod_eq_of_lt fits.length]

/-- The spans of `n + 1` are exact. -/
theorem tokenize_exact_iff_sum :
    Exact "n + 1".toList
      [⟨.ident "n", ⟨0, 1, 1⟩, ⟨1, 1, 2⟩⟩, ⟨.plus, ⟨2, 1, 3⟩, ⟨3, 1, 4⟩⟩,
        ⟨.integer 1, ⟨4, 1, 5⟩, ⟨5, 1, 6⟩⟩, ⟨.eof, ⟨5, 1, 6⟩, ⟨5, 1, 6⟩⟩] := by
  refine (@tokenize_exact_iff "n + 1" _ rfl).mpr ⟨⟨by decide, by decide, by decide⟩, ?_⟩
  have number : Tidy (some ' ') ['1'] :=
    @Tidy.step _ .flat '1' [] [] rfl (.inr ⟨rfl, by decide⟩) .done
  have second : Tidy (some '+') [' ', '1'] :=
    @Tidy.step _ .blank ' ' [] ['1'] rfl (.inl rfl) number
  have plus : Tidy (some ' ') ['+', ' ', '1'] :=
    @Tidy.step _ .flat '+' [] [' ', '1'] rfl (.inr ⟨rfl, by decide⟩) second
  have first : Tidy (some 'n') [' ', '+', ' ', '1'] :=
    @Tidy.step _ .blank ' ' [] ['+', ' ', '1'] rfl (.inl rfl) plus
  exact @Tidy.step _ .flat 'n' [] [' ', '+', ' ', '1'] rfl (.inr ⟨rfl, by decide⟩) first

/-- `42i32` is accepted, and its tokens have columns behind its end. -/
theorem suffixedInteger_not_exact :
    ∃ tokens, tokenize "42i32" = some (.ok tokens) ∧ ¬ Exact "42i32".toList tokens := by
  refine ⟨[⟨.integer 42, ⟨0, 1, 1⟩, ⟨2, 1, 6⟩⟩, ⟨.ident "i32", ⟨2, 1, 6⟩, ⟨5, 1, 9⟩⟩,
    ⟨.eof, ⟨5, 1, 9⟩, ⟨5, 1, 9⟩⟩], rfl, ?_⟩
  intro exact
  have place := (exact.inPlace _ List.mem_cons_self).2.2
  exact absurd place (by decide)

end Tinox.Lexer
