import Tinox.Lexer.Lexemes

/-!
# Readers against the text

What every reader that only bumps consumes, and where it stops: at the end of
the lexeme that the text has there.  Such a reader stays on its line, line
breaks included; an integer suffix is read and put back without its columns.
-/

namespace Tinox.Lexer

open Tinox.Syntax
open Read

variable {s : Lexer} {c : Char} {more : List Char}

namespace Lexer

/-- The text in front of the position. -/
def past (s : Lexer) : List Char :=
  s.chars.take s.pos

/-- The text from the position on. -/
def rest (s : Lexer) : List Char :=
  s.chars.drop s.pos

theorem length_rest (s : Lexer) : s.rest.length = s.chars.length - s.pos :=
  List.length_drop

theorem past_append_rest (s : Lexer) : s.past ++ s.rest = s.chars :=
  List.take_append_drop _ _

theorem ahead_eq (s : Lexer) (distance : Nat) :
    s.ahead distance = (s.rest[distance]?).getD '\x00' := by
  rw [ahead, rest, List.getElem?_drop]

theorem peek_eq (s : Lexer) : s.peek = s.rest.headD '\x00' := by
  rw [peek, ahead_eq]
  cases s.rest <;> rfl

theorem rest_bump (s : Lexer) : s.bump.rest = s.rest.tail := by
  rw [rest, rest, List.tail_drop]
  rfl

theorem rest_bump_cons (text : s.rest = c :: more) : s.bump.rest = more := by
  rw [rest_bump, text]
  rfl

/-- What is read in front of the end of the text is its next character. -/
theorem rest_of_peek (current : s.peek = c) (visible : c ≠ '\x00') : s.rest = c :: s.rest.tail := by
  rw [peek_eq] at current
  cases h : s.rest with
  | nil =>
      rw [h] at current
      exact absurd current.symm visible
  | cons d rest =>
      rw [h] at current
      rw [← current]
      rfl

theorem peek_of_rest (text : s.rest = c :: more) : s.peek = c := by
  rw [peek_eq, text]
  rfl

end Lexer

/-- A lexer moves over a stretch of text. -/
structure Moves (s : Lexer) (cs : List Char) (s' : Lexer) : Prop where
  chars : s'.chars = s.chars
  start : s'.start = s.start
  startColumn : s'.startColumn = s.startColumn
  pos : s'.pos = s.pos + cs.length
  rest : s.rest = cs ++ s'.rest

/-- A lexer moves by bumping: it stays on the line. -/
structure Passes (s : Lexer) (cs : List Char) (s' : Lexer) : Prop extends Moves s cs s' where
  line : s'.line = s.line
  column : s'.column = s.column + cs.length.toUInt32

variable {s' u : Lexer} {cs : List Char}

namespace Moves

theorem past (moves : Moves s cs s') : s'.past = s.past ++ cs := by
  have text : s'.past ++ s'.rest = s.past ++ cs ++ s'.rest := by
    rw [Lexer.past_append_rest, moves.chars, ← Lexer.past_append_rest s, moves.rest,
      List.append_assoc]
  exact List.append_cancel_right text

theorem trans {t : Lexer} {first second : List Char} (before : Moves s first t)
    (after : Moves t second u) : Moves s (first ++ second) u where
  chars := after.chars.trans before.chars
  start := after.start.trans before.start
  startColumn := after.startColumn.trans before.startColumn
  pos := by rw [after.pos, before.pos, List.length_append, Nat.add_assoc]
  rest := by rw [before.rest, after.rest, List.append_assoc]

end Moves

namespace Passes

theorem refl (s : Lexer) : Passes s [] s where
  chars := rfl
  start := rfl
  startColumn := rfl
  pos := rfl
  rest := rfl
  line := rfl
  column := (UInt32.add_zero s.column).symm

theorem trans {t : Lexer} {first second : List Char} (before : Passes s first t)
    (after : Passes t second u) : Passes s (first ++ second) u where
  toMoves := before.toMoves.trans after.toMoves
  line := after.line.trans before.line
  column := by
    rw [after.column, before.column, List.length_append, UInt32.add_assoc]
    exact congrArg _ (UInt32.ofNat_add _ _).symm

theorem bump (text : s.rest = c :: more) : Passes s [c] s.bump where
  chars := rfl
  start := rfl
  startColumn := rfl
  pos := rfl
  rest := by rw [Lexer.rest_bump, text]; rfl
  line := rfl
  column := rfl

end Passes

/-- A loop that bumps while a test holds consumes the longest stretch of
characters that pass. -/
theorem passes_bumpWhile (test : Lexer → Bool) (accepts : Char → Bool)
    (atCharacter : ∀ s c more, s.rest = c :: more → test s = accepts c) (s : Lexer) :
    Passes s (s.rest.takeWhile accepts) (bumpWhile test s.rest.length s) ∧
      (bumpWhile test s.rest.length s).rest = s.rest.dropWhile accepts := by
  generalize text : s.rest = cs
  induction cs generalizing s with
  | nil => exact ⟨Passes.refl s, text⟩
  | cons c more ih =>
      rw [List.takeWhile_cons, List.dropWhile_cons, List.length_cons, bumpWhile,
        atCharacter s c more text]
      by_cases accepted : accepts c
      · rw [if_pos accepted, if_pos accepted, if_pos accepted]
        have next := Lexer.rest_bump_cons text
        have tail := ih s.bump next
        exact ⟨(Passes.bump text).trans tail.1, tail.2⟩
      · rw [if_neg accepted, if_neg accepted, if_neg accepted]
        exact ⟨Passes.refl s, text⟩

section Runs

variable {α β : Type} {s s' : Lexer}

variable {a : α}

theorem bind_apply (p : Read α) (f : α → Read β) :
    (p >>= f) s =
      match p s with
      | (.error e, t) => (.error e, t)
      | (.ok a, t) => f a t :=
  rfl

theorem bind_ok {p : Read α} {f : α → Read β} {b : β} :
    (p >>= f) s = (.ok b, s') ↔ ∃ a t, p s = (.ok a, t) ∧ f a t = (.ok b, s') := by
  rw [bind_apply]
  constructor
  · intro run
    cases h : p s with
    | mk result t =>
        rw [h] at run
        cases result with
        | error e => cases run
        | ok a => exact ⟨a, t, rfl, run⟩
  · rintro ⟨a, t, first, second⟩
    rw [first]
    exact second

@[simp]
theorem bind_peek (f : Char → Read β) : (peek >>= f) s = f s.peek s :=
  rfl

@[simp]
theorem bind_peekNext (f : Char → Read β) : (peekNext >>= f) s = f s.peekNext s :=
  rfl

@[simp]
theorem bind_bump (f : Unit → Read β) : (bump >>= f) s = f () s.bump :=
  rfl

@[simp]
theorem bind_get (g : Lexer → α) (f : α → Read β) : (get g >>= f) s = f (g s) s :=
  rfl

@[simp]
theorem bind_modify (g : Lexer → Lexer) (f : Unit → Read β) : (modify g >>= f) s = f () (g s) :=
  rfl

@[simp]
theorem bind_atEnd (f : Bool → Read β) :
    (atEnd >>= f) s = f (decide (s.chars.length ≤ s.pos)) s :=
  rfl

@[simp]
theorem pure_ok {b : α} : (pure a : Read α) s = (.ok b, s') ↔ a = b ∧ s = s' := by
  change (Except.ok a, s) = (Except.ok b, s') ↔ _
  simp

@[simp]
theorem fail_ok {message : String} : (fail message : Read α) s ≠ (.ok a, s') := by
  simp [fail]

@[simp]
theorem require_ok {message : String} {value : Option α} :
    require message value s = (.ok a, s') ↔ value = some a ∧ s = s' := by
  cases value with
  | none => simp [require]
  | some b => simp [require]

end Runs

/-- A reader consumes operator characters only, and makes a token of them. -/
def Symbolic (reader : Read Token) (s : Lexer) : Prop :=
  ∀ ⦃t s'⦄, reader s = (.ok t, s') →
    ∃ cs, Passes s cs s' ∧ (∀ c ∈ cs, (symbolReader c).isSome) ∧
      t.span = s'.mkSpan ∧ t.kind.isTrivia = false ∧ t.kind ≠ .eof

variable {t : Token}

section Operators

variable {s : Lexer} {kind : TokenKind} {c : Char} {next : Unit → Read Token}

theorem symbolic_token (kept : kind.isTrivia = false) (inside : kind ≠ .eof) :
    Symbolic (token kind) s := by
  rintro t s' ⟨⟩
  exact ⟨[], Passes.refl s, by simp, rfl, kept, inside⟩

theorem symbolic_bump (current : s.peek = c) (symbol : (symbolReader c).isSome)
    (visible : c ≠ '\x00') (after : Symbolic (next ()) s.bump) :
    Symbolic (bump >>= next) s := by
  intro t s' run
  rcases after run with ⟨cs, passes, symbols, span, kept, inside⟩
  have first := Passes.bump (Lexer.rest_of_peek current visible)
  refine ⟨c :: cs, first.trans passes, ?_, span, kept, inside⟩
  rintro d (_ | ⟨_, member⟩)
  · exact symbol
  · exact symbols d member

theorem symbolic_single (current : s.peek = c) (symbol : (symbolReader c).isSome)
    (visible : c ≠ '\x00') (kept : kind.isTrivia = false) (inside : kind ≠ .eof) :
    Symbolic (single kind) s :=
  symbolic_bump current symbol visible (symbolic_token kept inside)

theorem symbolic_peek {f : Char → Read Token} (read : Symbolic (f s.peek) s) :
    Symbolic (peek >>= f) s :=
  read

theorem symbolic_second {second : Char} {longer shorter : TokenKind}
    (symbol : (symbolReader second).isSome) (visible : second ≠ '\x00')
    (kept : longer.isTrivia = false ∧ longer ≠ .eof)
    (kept' : shorter.isTrivia = false ∧ shorter ≠ .eof) :
    Symbolic (peek >>= fun c => if c = second then single longer else token shorter) s := by
  apply symbolic_peek
  by_cases same : s.peek = second
  · rw [if_pos same]
    exact symbolic_single same symbol visible kept.1 kept.2
  · rw [if_neg same]
    exact symbolic_token kept'.1 kept'.2

theorem symbolic_pair {second : Char} {longer shorter : TokenKind} (current : s.peek = c)
    (symbol : (symbolReader c).isSome) (visible : c ≠ '\x00')
    (symbol' : (symbolReader second).isSome) (visible' : second ≠ '\x00')
    (kept : longer.isTrivia = false ∧ longer ≠ .eof)
    (kept' : shorter.isTrivia = false ∧ shorter ≠ .eof) :
    Symbolic (pair second longer shorter) s :=
  symbolic_bump current symbol visible (symbolic_second symbol' visible' kept kept')

/-- An operator is read up to its end, whatever its first character is. -/
theorem operator_ok (text : s.rest = c :: more) (after : Symbolic (next ()) s.bump)
    (run : (bump >>= next) s = (.ok t, s')) :
    ∃ cs, Passes s (c :: cs) s' ∧ (∀ d ∈ cs, (symbolReader d).isSome) ∧
      t.span = s'.mkSpan ∧ t.kind.isTrivia = false ∧ t.kind ≠ .eof := by
  rcases after run with ⟨cs, passes, symbols, made⟩
  exact ⟨cs, (Passes.bump text).trans passes, symbols, made⟩

theorem readOperator_ok (text : s.rest = '/' :: more) (run : readOperator s = (.ok t, s')) :
    ∃ cs, Passes s ('/' :: cs) s' ∧ (∀ d ∈ cs, (symbolReader d).isSome) ∧
      t.span = s'.mkSpan ∧ t.kind.isTrivia = false ∧ t.kind ≠ .eof :=
  operator_ok text (symbolic_second (by decide) (by decide) (by decide) (by decide)) run

/-- The readers of operators and punctuation bump over their first character
and then over operator characters. -/
theorem symbolReader_bump {reader : Read Token} (found : symbolReader c = some reader)
    (s : Lexer) : ∃ next, reader = (bump >>= next) ∧ Symbolic (next ()) s := by
  unfold symbolReader at found
  split at found
  case h_8 =>
    cases found
    refine ⟨_, rfl, ?_⟩
    apply symbolic_peek
    split
    · exact symbolic_single ‹_› (by decide) (by decide) rfl (by decide)
    · apply symbolic_bump ‹_› (by decide) (by decide)
      apply symbolic_peek
      split
      · exact symbolic_pair ‹_› (by decide) (by decide) rfl (by decide) (by decide) (by decide)
      · exact symbolic_single ‹_› (by decide) (by decide) rfl (by decide)
      · exact symbolic_token rfl (by decide)
    · exact symbolic_token rfl (by decide)
  case h_26 => cases found
  all_goals
    cases found
    refine ⟨_, rfl, ?_⟩
    first
      | exact symbolic_token rfl (by decide)
      | exact symbolic_second (by decide) (by decide) (by decide) (by decide)
      | -- The second character decides on the operator.
        apply symbolic_peek
        split
        all_goals first
          | exact symbolic_single ‹_› (by decide) (by decide) rfl (by decide)
          | exact symbolic_pair ‹_› (by decide) (by decide) rfl (by decide) (by decide) (by decide)
          | exact symbolic_token rfl (by decide)

end Operators

/-! ## Words, strings and characters -/

/-- A token is made by bumping up to a given remainder of the text. -/
structure Consumes (s : Lexer) (t : Token) (s' : Lexer) (rest : List Char) : Prop where
  passes : ∃ cs, Passes s cs s'
  rest : s'.rest = rest
  span : t.span = s'.mkSpan
  kept : t.kind.isTrivia = false
  inside : t.kind ≠ .eof

variable {value : Nat}

theorem Consumes.after {rest : List Char} (before : Passes s cs u) (consumes : Consumes u t s' rest) :
    Consumes s t s' rest where
  passes := consumes.passes.elim fun _ passes => ⟨_, before.trans passes⟩
  rest := consumes.rest
  span := consumes.span
  kept := consumes.kept
  inside := consumes.inside

theorem consumes_token {kind : TokenKind} (kept : kind.isTrivia = false) (inside : kind ≠ .eof)
    (run : token kind s = (.ok t, s')) : Consumes s t s' s.rest := by
  cases run
  exact ⟨⟨[], Passes.refl s⟩, rfl, rfl, kept, inside⟩

/-- The state behind `skipWhile`. -/
def skipped (accepts : Char → Bool) (s : Lexer) : Lexer :=
  bumpWhile (fun s => accepts s.peek) (s.chars.length - s.pos) s

@[simp]
theorem bind_skipWhile {β : Type} (accepts : Char → Bool) (f : Unit → Read β) :
    (skipWhile accepts >>= f) s = f () (skipped accepts s) :=
  rfl

theorem passes_skipped (accepts : Char → Bool) (s : Lexer) :
    Passes s (s.rest.takeWhile accepts) (skipped accepts s) := by
  rw [skipped, ← s.length_rest]
  exact (passes_bumpWhile _ accepts (fun t c more text => by rw [Lexer.peek_of_rest text]) s).1

theorem rest_skipped (accepts : Char → Bool) (s : Lexer) :
    (skipped accepts s).rest = s.rest.dropWhile accepts := by
  rw [skipped, ← s.length_rest]
  exact (passes_bumpWhile _ accepts (fun t c more text => by rw [Lexer.peek_of_rest text]) s).2

theorem wordKind_kept (text : String) :
    (wordKind text).isTrivia = false ∧ wordKind text ≠ .eof := by
  unfold wordKind
  split
  · exact ⟨rfl, by simp⟩
  · split
    · exact ⟨rfl, by simp⟩
    · split
      · exact ⟨rfl, by simp⟩
      · split <;> exact ⟨rfl, by simp⟩

theorem readIdentOrKeyword_ok (run : readIdentOrKeyword s = (.ok t, s')) :
    Consumes s t s' (s.rest.dropWhile isIdentPart) := by
  rw [readIdentOrKeyword, bind_get, bind_skipWhile, bind_get] at run
  have word := consumes_token (wordKind_kept _).1 (wordKind_kept _).2 run
  rw [rest_skipped] at word
  exact word.after (passes_skipped isIdentPart s)

/-- The characters of an escape sequence behind its letter. -/
def isEscapePart (c : Char) : Prop :=
  isHexDigit c ∨ c = '{' ∨ c = '}'

theorem readHexDigit_ok (run : readHexDigit s = (.ok value, s')) :
    ∃ c, isHexDigit c ∧ Passes s [c] s' := by
  rw [readHexDigit, bind_peek, bind_bump] at run
  by_cases digit : isHexDigit s.peek
  · rw [if_pos digit, pure_ok] at run
    rcases run with ⟨-, rfl⟩
    have visible : s.peek ≠ '\x00' := fun same => by
      rw [same] at digit
      exact absurd digit (by decide)
    exact ⟨s.peek, digit, Passes.bump (Lexer.rest_of_peek rfl visible)⟩
  · rw [if_neg digit] at run
    exact absurd run fail_ok

theorem readDigits_ok {count result : Nat} (run : readDigits count value s = (.ok result, s')) :
    ∃ cs, Passes s cs s' ∧ ∀ c ∈ cs, isEscapePart c := by
  induction count generalizing value s with
  | zero =>
      rw [readDigits, pure_ok] at run
      rcases run with ⟨-, rfl⟩
      exact ⟨[], Passes.refl s, by simp⟩
  | succ count ih =>
      rw [readDigits, bind_ok] at run
      rcases run with ⟨digit, u, first, more⟩
      rcases readHexDigit_ok first with ⟨c, hex, passes⟩
      rcases ih more with ⟨cs, tail, parts⟩
      refine ⟨c :: cs, passes.trans tail, ?_⟩
      rintro d (_ | ⟨_, member⟩)
      · exact .inl hex
      · exact parts d member

theorem readBracedDigits_ok {count result : Nat}
    (run : readBracedDigits count value s = (.ok result, s')) :
    ∃ cs, Passes s cs s' ∧ ∀ c ∈ cs, isEscapePart c := by
  induction count generalizing value s with
  | zero =>
      rw [readBracedDigits, pure_ok] at run
      rcases run with ⟨-, rfl⟩
      exact ⟨[], Passes.refl s, by simp⟩
  | succ count ih =>
      rw [readBracedDigits, bind_peek] at run
      by_cases closed : s.peek = '}'
      · rw [if_pos closed, pure_ok] at run
        rcases run with ⟨-, rfl⟩
        exact ⟨[], Passes.refl s, by simp⟩
      · rw [if_neg closed, bind_ok] at run
        rcases run with ⟨digit, u, first, more⟩
        rcases readHexDigit_ok first with ⟨c, hex, passes⟩
        rcases ih more with ⟨cs, tail, parts⟩
        refine ⟨c :: cs, passes.trans tail, ?_⟩
        rintro d (_ | ⟨_, member⟩)
        · exact .inl hex
        · exact parts d member

theorem expectChar_ok (visible : c ≠ '\x00') (run : expectChar c s = (.ok (), s')) :
    Passes s [c] s' := by
  rw [expectChar, bind_peek] at run
  by_cases found : s.peek = c
  · rw [if_pos found] at run
    cases run
    exact Passes.bump (Lexer.rest_of_peek found visible)
  · rw [if_neg found] at run
    exact absurd run fail_ok

/-- An escape sequence is a letter with hexadecimal digits and braces. -/
theorem readEscape_ok {value : Char} (run : readEscape s = (.ok value, s')) :
    ∃ first tail, Passes s (first :: tail) s' ∧ ∀ c ∈ tail, isEscapePart c := by
  rw [readEscape, bind_peek, bind_bump] at run
  have visible : s.peek ≠ '\x00' := by
    intro same
    rw [same] at run
    exact absurd run fail_ok
  have head := Passes.bump (Lexer.rest_of_peek rfl visible)
  suffices tail : ∃ cs, Passes s.bump cs s' ∧ ∀ c ∈ cs, isEscapePart c by
    rcases tail with ⟨cs, passes, parts⟩
    exact ⟨s.peek, cs, head.trans passes, parts⟩
  generalize s.peek = letter at run
  split at run
  case h_8 =>
    rw [bind_ok] at run
    rcases run with ⟨code, u, digits, found⟩
    rw [require_ok] at found
    rw [← found.2]
    exact readDigits_ok digits
  case h_9 =>
    simp only [bind_ok, require_ok] at run
    rcases run with ⟨_, t, opens, code, u, digits, _, v, closes, -, rfl⟩
    rcases readBracedDigits_ok digits with ⟨cs, passes, parts⟩
    have whole := ((expectChar_ok (by decide) opens).trans passes).trans
      (expectChar_ok (by decide) closes)
    refine ⟨_, whole, ?_⟩
    intro c member
    rw [List.mem_append, List.mem_append, List.mem_singleton, List.mem_singleton] at member
    rcases member with (rfl | member) | rfl
    · exact .inr (.inl rfl)
    · exact parts c member
    · exact .inr (.inr rfl)
  case h_10 =>
    rw [bind_ok] at run
    rcases run with ⟨code, u, digits, found⟩
    rw [require_ok] at found
    rw [← found.2]
    exact readDigits_ok digits
  case h_11 => exact absurd run fail_ok
  all_goals
    rw [pure_ok] at run
    rw [← run.2]
    exact ⟨[], Passes.refl _, by simp⟩

theorem escapePart_ne {d : Char} (part : isEscapePart c)
    (other : ¬ isHexDigit d ∧ d ≠ '{' ∧ d ≠ '}') : c ≠ d := by
  rintro rfl
  rcases part with hex | rfl | rfl
  · exact other.1 hex
  · exact other.2.1 rfl
  · exact other.2.2 rfl

theorem afterString_cons {c : Char} {rest : List Char} (quote : c ≠ '"') (escape : c ≠ '\\')
    (interpolation : c = '$' → rest.head? ≠ some '{') :
    afterString 0 (c :: rest) = afterString 0 rest := by
  rw [afterString]
  · exact quote
  · rintro d more rfl
    exact absurd rfl escape
  · rintro more rfl rfl
    exact absurd rfl (interpolation rfl)

theorem afterString_escape {cs : List Char} (parts : ∀ c ∈ cs, isEscapePart c)
    (rest : List Char) : afterString 0 (cs ++ rest) = afterString 0 rest := by
  induction cs with
  | nil => rfl
  | cons c cs ih =>
      have part := parts c List.mem_cons_self
      have dollar : c ≠ '$' := escapePart_ne part (by decide)
      rw [List.cons_append, afterString_cons (escapePart_ne part (by decide))
        (escapePart_ne part (by decide)) (fun same => absurd same dollar)]
      exact ih fun d member => parts d (List.mem_cons_of_mem c member)

theorem readInterpolation_ok {count depth : Nat} {source result : String} {s s' : Lexer}
    (enough : count = s.rest.length)
    (run : readInterpolation count (depth + 1) source s = (.ok result, s')) :
    ∃ cs, Passes s cs s' ∧ afterString (depth + 1) s.rest = afterString 0 s'.rest := by
  induction count generalizing depth source s with
  | zero =>
      rw [readInterpolation, pure_ok] at run
      rcases run with ⟨-, rfl⟩
      have empty : s.rest = [] := List.length_eq_zero_iff.mp enough.symm
      exact ⟨[], Passes.refl s, by rw [empty]; simp only [afterString]⟩
  | succ count ih =>
      cases text : s.rest with
      | nil => rw [text] at enough; cases enough
      | cons c more =>
          have first := Passes.bump text
          have next := Lexer.rest_bump_cons text
          have rounds : count = s.bump.rest.length := by
            rw [next]
            rw [text] at enough
            exact Nat.succ.inj enough
          rw [readInterpolation, bind_peek, Lexer.peek_of_rest text, bind_bump] at run
          by_cases opens : c = '{'
          · subst opens
            rw [if_neg (by simp)] at run
            have inner : readInterpolation count (depth + 1 + 1) _ s.bump = _ := run
            rcases ih rounds inner with ⟨cs, passes, same⟩
            refine ⟨_, first.trans passes, ?_⟩
            rw [next] at same
            rw [afterString, same]
          · by_cases closes : c = '}'
            · subst closes
              cases depth with
              | zero =>
                  rw [if_pos (by simp), pure_ok] at run
                  rcases run with ⟨-, rfl⟩
                  exact ⟨_, first, by rw [afterString, next]⟩
              | succ depth =>
                  rw [if_neg (by simp)] at run
                  have inner : readInterpolation count (depth + 1) _ s.bump = _ := run
                  rcases ih rounds inner with ⟨cs, passes, same⟩
                  refine ⟨_, first.trans passes, ?_⟩
                  rw [next] at same
                  rw [afterString, same]
            · rw [if_neg opens, if_neg closes, if_neg (Nat.succ_ne_zero depth)] at run
              rcases ih rounds run with ⟨cs, passes, same⟩
              refine ⟨_, first.trans passes, ?_⟩
              rw [next] at same
              rw [afterString, same]
              · exact opens
              · exact closes

/-- The loop over a string stops at the quote that ends it, or at the end of
the text. -/
theorem readStringLoop_ok {count : Nat} {found result : StringParts} {s s' : Lexer}
    (enough : s.rest.length ≤ count) (run : readStringLoop count found s = (.ok result, s')) :
    ∃ cs, Passes s cs s' ∧
      (s'.rest = [] ∨ ∃ more, s'.rest = '"' :: more ∧ afterString 0 s.rest = more) := by
  induction count generalizing found s with
  | zero =>
      rw [readStringLoop, pure_ok] at run
      rcases run with ⟨-, rfl⟩
      exact ⟨[], Passes.refl s, .inl (List.length_eq_zero_iff.mp (Nat.le_zero.mp enough))⟩
  | succ count ih =>
      rw [readStringLoop, bind_peek, bind_atEnd] at run
      cases text : s.rest with
      | nil =>
          have finished : s.chars.length ≤ s.pos := by
            have none := s.length_rest
            rw [text] at none
            exact Nat.le_of_sub_eq_zero none.symm
          rw [if_pos (.inl (decide_eq_true finished)), pure_ok] at run
          rcases run with ⟨-, rfl⟩
          exact ⟨[], Passes.refl s, .inl text⟩
      | cons c more =>
          have first := Passes.bump text
          have next := Lexer.rest_bump_cons text
          have unfinished : ¬ s.chars.length ≤ s.pos := by
            intro finished
            have none := s.length_rest
            rw [text, Nat.sub_eq_zero_of_le finished] at none
            cases none
          have rounds : s.bump.rest.length ≤ count := by
            rw [next]
            rw [text] at enough
            exact Nat.le_of_succ_le_succ enough
          rw [Lexer.peek_of_rest text] at run
          by_cases quote : c = '"'
          · subst quote
            rw [if_pos (.inr rfl), pure_ok] at run
            rcases run with ⟨-, rfl⟩
            exact ⟨[], Passes.refl s, .inr ⟨more, text, by rw [afterString]⟩⟩
          · rw [if_neg (by simp [unfinished, quote])] at run
            by_cases newline : c = '\n'
            · rw [if_pos newline] at run
              exact absurd run fail_ok
            · rw [if_neg newline, bind_peekNext] at run
              by_cases interpolation : c = '$' ∧ s.peekNext = '{'
              · rw [if_pos interpolation, bind_bump, bind_bump, bind_get, bind_ok] at run
                rcases run with ⟨source, u, inner, outer⟩
                rcases interpolation with ⟨rfl, brace⟩
                have second : s.bump.rest = '{' :: s.bump.rest.tail :=
                  Lexer.rest_of_peek brace (by decide)
                have opened := first.trans (Passes.bump second)
                have inside : s.bump.bump.rest = s.bump.rest.tail := Lexer.rest_bump _
                have shorter : s.bump.bump.rest.length ≤ count := by
                  rw [inside, List.length_tail]
                  exact Nat.le_trans (Nat.sub_le _ 1) rounds
                rcases readInterpolation_ok (s.bump.bump.length_rest).symm inner with
                  ⟨cs, passes, same⟩
                have left : u.rest.length ≤ count := by
                  rw [passes.rest, List.length_append] at shorter
                  exact Nat.le_trans (Nat.le_add_left _ _) shorter
                rcases ih left outer with ⟨ds, tail, stop⟩
                refine ⟨_, (opened.trans passes).trans tail, stop.imp_right ?_⟩
                rintro ⟨behind, rest, ends⟩
                refine ⟨behind, rest, ?_⟩
                rw [← next, second, afterString, ← inside, same]
                exact ends
              · rw [if_neg interpolation] at run
                by_cases escape : c = '\\'
                · subst escape
                  rw [if_pos rfl, bind_bump, bind_atEnd] at run
                  by_cases finished : s.bump.chars.length ≤ s.bump.pos
                  · rw [if_pos (decide_eq_true finished)] at run
                    exact absurd run fail_ok
                  · rw [if_neg (by simp [finished]), bind_ok] at run
                    rcases run with ⟨escaped, u, inner, outer⟩
                    rcases readEscape_ok inner with ⟨letter, cs, passes, parts⟩
                    have left : u.rest.length ≤ count := by
                      rw [passes.rest, List.length_append] at rounds
                      exact Nat.le_trans (Nat.le_add_left _ _) rounds
                    rcases ih left outer with ⟨ds, tail, stop⟩
                    refine ⟨_, (first.trans passes).trans tail, stop.imp_right ?_⟩
                    rintro ⟨behind, rest, ends⟩
                    refine ⟨behind, rest, ?_⟩
                    rw [← next, passes.rest, List.cons_append, afterString,
                      afterString_escape parts]
                    exact ends
                · rw [if_neg escape, bind_bump] at run
                  rcases ih rounds run with ⟨cs, passes, stop⟩
                  refine ⟨_, first.trans passes, stop.imp_right ?_⟩
                  rintro ⟨behind, rest, ends⟩
                  refine ⟨behind, rest, ?_⟩
                  rw [afterString_cons quote escape, ← next]
                  · exact ends
                  · intro dollar brace
                    refine interpolation ⟨dollar, ?_⟩
                    rw [Lexer.peekNext, Lexer.ahead_eq, text]
                    cases more with
                    | nil => cases brace
                    | cons d rest =>
                        cases brace
                        rfl

theorem readString_ok {s s' : Lexer} {t : Token} {more : List Char} (text : s.rest = '"' :: more)
    (run : readString s = (.ok t, s')) : Consumes s t s' (afterString 0 more) := by
  have next := Lexer.rest_bump_cons text
  rw [readString, bind_bump, bind_get, bind_ok] at run
  rcases run with ⟨found, u, inner, outer⟩
  rcases readStringLoop_ok (Nat.le_of_eq s.bump.length_rest) inner with ⟨cs, passes, stop⟩
  rw [bind_atEnd] at outer
  by_cases finished : u.chars.length ≤ u.pos
  · rw [if_pos (decide_eq_true finished)] at outer
    exact absurd outer fail_ok
  · rw [if_neg (by simp [finished]), bind_bump] at outer
    rcases stop with empty | ⟨behind, rest, ends⟩
    · have none := u.length_rest
      rw [empty] at none
      exact absurd (Nat.le_of_sub_eq_zero none.symm) finished
    · have whole := ((Passes.bump text).trans passes).trans (Passes.bump rest)
      have remainder : u.bump.rest = afterString 0 more := by
        rw [Lexer.rest_bump, rest, ← next, ends]
        rfl
      rw [← remainder]
      by_cases interpolated : found.hasInterp
      · rw [if_pos interpolated] at outer
        exact (consumes_token rfl (by simp) outer).after whole
      · rw [if_neg interpolated] at outer
        exact (consumes_token rfl (by simp) outer).after whole

/-- The body of a character or byte literal: an escape sequence, or one bump. -/
def CharBody (s s' : Lexer) : Prop :=
  (∃ letter tail, Passes s ('\\' :: letter :: tail) s' ∧ ∀ c ∈ tail, isEscapePart c) ∨
    (s.peek ≠ '\\' ∧ s' = s.bump)

theorem readCharBody_ok (run : readCharBody s = (.ok c, s')) : CharBody s s' := by
  rw [readCharBody, bind_peek] at run
  by_cases escape : s.peek = '\\'
  · rw [if_pos escape, bind_bump] at run
    rcases readEscape_ok run with ⟨letter, tail, passes, parts⟩
    have first := Passes.bump (Lexer.rest_of_peek escape (by decide))
    exact .inl ⟨letter, tail, first.trans passes, parts⟩
  · rw [if_neg escape, bind_peek] at run
    by_cases quote : s.peek = '\''
    · rw [if_pos quote] at run
      exact absurd run fail_ok
    · rw [if_neg quote, bind_bump, pure_ok] at run
      exact .inr ⟨escape, run.2.symm⟩

theorem readByteBody_ok {b : UInt8} (run : readByteBody s = (.ok b, s')) : CharBody s s' := by
  rw [readByteBody, bind_peek] at run
  by_cases escape : s.peek = '\\'
  · rw [if_pos escape, bind_bump, bind_ok] at run
    rcases run with ⟨escaped, u, inner, outer⟩
    rw [pure_ok] at outer
    rcases readEscape_ok inner with ⟨letter, tail, passes, parts⟩
    have first := Passes.bump (Lexer.rest_of_peek escape (by decide))
    rw [← outer.2]
    exact .inl ⟨letter, tail, first.trans passes, parts⟩
  · rw [if_neg escape, bind_peek] at run
    by_cases quote : s.peek = '\''
    · rw [if_pos quote] at run
      exact absurd run fail_ok
    · rw [if_neg quote] at run
      by_cases large : 127 < s.peek.toNat
      · rw [if_pos large] at run
        exact absurd run fail_ok
      · rw [if_neg large, bind_bump, pure_ok] at run
        exact .inr ⟨escape, run.2.symm⟩

theorem CharBody.close (body : CharBody s u) (quote : u.peek = '\'') :
    (∃ cs, Passes s cs u.bump) ∧ u.bump.rest = afterChar s.rest := by
  have closing := Lexer.rest_of_peek quote (by decide)
  rw [Lexer.rest_bump]
  rcases body with ⟨letter, tail, passes, parts⟩ | ⟨plain, rfl⟩
  · refine ⟨⟨_, passes.trans (Passes.bump closing)⟩, ?_⟩
    have hexadecimal : ∀ c ∈ tail, (c != '\'') = true := by
      intro c member
      exact bne_iff_ne.mpr (escapePart_ne (parts c member) (by decide))
    rw [passes.rest, closing]
    simp only [List.cons_append, afterChar, List.drop_succ_cons, List.drop_zero]
    rw [List.dropWhile_append_of_pos hexadecimal, List.dropWhile_cons_of_neg (by simp)]
    rfl
  · cases text : s.rest with
    | nil =>
        rw [Lexer.rest_bump, text] at closing
        cases closing
    | cons c more =>
        rw [Lexer.rest_bump, text, List.tail_cons] at closing
        have next : s.bump.rest = '\'' :: more.tail := by
          rw [Lexer.rest_bump, text, List.tail_cons, closing]
          rfl
        refine ⟨⟨_, (Passes.bump text).trans (Passes.bump next)⟩, ?_⟩
        rw [next, afterChar]
        · rw [List.tail_cons, List.drop_one]
        · rw [Lexer.peek_of_rest text] at plain
          exact plain

theorem quoted_ok {α : Type} {body : Read α} {kind : α → TokenKind} {message : String}
    (isBody : ∀ {s u a}, body s = (.ok a, u) → CharBody s u)
    (solid : ∀ a, (kind a).isTrivia = false) (inside : ∀ a, kind a ≠ .eof) (text : s.rest = c :: more)
    (run : (do
      bump
      let ch ← body
      if (← peek) ≠ '\'' then fail message
      else
        bump
        token (kind ch) : Read Token) s = (.ok t, s')) : Consumes s t s' (afterChar more) := by
  have next := Lexer.rest_bump_cons text
  rw [bind_bump, bind_ok] at run
  rcases run with ⟨ch, u, inner, outer⟩
  rw [bind_peek] at outer
  by_cases quote : u.peek = '\''
  · rw [if_neg (not_not_intro quote), bind_bump] at outer
    rcases (isBody inner).close quote with ⟨⟨cs, passes⟩, rest⟩
    rw [← next, ← rest]
    exact (consumes_token (solid ch) (inside ch) outer).after ((Passes.bump text).trans passes)
  · rw [if_pos quote] at outer
    exact absurd outer fail_ok

theorem readChar_ok (text : s.rest = c :: more) (run : readChar s = (.ok t, s')) :
    Consumes s t s' (afterChar more) :=
  quoted_ok readCharBody_ok (fun _ => rfl) (by simp) text run

theorem readByteLiteral_ok (text : s.rest = c :: more) (run : readByteLiteral s = (.ok t, s')) :
    Consumes s t s' (afterChar more) :=
  quoted_ok readByteBody_ok (fun _ => rfl) (by simp) text run

/-! ## Numbers -/

/-- An integer suffix is put back without its columns. -/
structure Slips (s : Lexer) (t : Token) (s' : Lexer) (rest : List Char) : Prop where
  passes : ∃ cs u length, Passes s cs u ∧ '\n' ∉ cs ∧ u.rest = rest ∧
    (2 ≤ length ∧ length ≤ 4) ∧ s' = { u with column := u.column + Nat.toUInt32 length }
  span : t.span = s'.mkSpan
  kept : t.kind.isTrivia = false
  inside : t.kind ≠ .eof

/-- What a number does to the counters. -/
def Counts (outcome : Shape × List Char) (s : Lexer) (t : Token) (s' : Lexer) : Prop :=
  outcome.1 = .flat ∧ Consumes s t s' outcome.2 ∨
    outcome.1 = .suffixedInteger ∧ Slips s t s' outcome.2

variable {start : Nat}

theorem intSuffix_isSome {text : List Char} (rest : s.rest = text) :
    (intSuffix s).isSome = suffixed text := by
  unfold intSuffix
  simp only [Lexer.peek, Lexer.peekNext, Lexer.ahead_eq, rest]
  rcases text with _ | ⟨a, _ | ⟨b, _ | ⟨c, _ | ⟨d, more⟩⟩⟩⟩
  all_goals
    simp only [suffixed, intSuffixes, List.any_cons, List.any_nil]
    split <;> simp_all [List.isPrefixOf] <;> grind

theorem intSuffix_length {suffix : IntSuffix} {length : Nat}
    (found : intSuffix s = some (suffix, length)) : 2 ≤ length ∧ length ≤ 4 := by
  unfold intSuffix at found
  split at found <;> grind

theorem bumps_eq (count : Nat) (s : Lexer) :
    bumps count s =
      { s with pos := s.pos + count, column := s.column + count.toUInt32 } := by
  induction count generalizing s with
  | zero =>
      change s = { s with pos := s.pos, column := s.column + 0 }
      rw [UInt32.add_zero]
  | succ count ih =>
      rw [bumps, ih]
      simp only [Lexer.bump, Lexer.mk.injEq, true_and, and_true]
      refine ⟨by rw [Nat.add_assoc, Nat.add_comm 1], ?_⟩
      rw [UInt32.add_assoc, UInt32.add_comm 1]
      exact congrArg _ (UInt32.ofNat_add count 1).symm

theorem readIntSuffix_ok {suffix : Option IntSuffix} (digits : s.peek ≠ '_')
    (run : readIntSuffix s = (.ok suffix, s')) : suffix = none ∧
      (suffixed s.rest = false ∧ s' = s ∨
        suffixed s.rest ∧ ∃ length, (2 ≤ length ∧ length ≤ 4) ∧
          s' = { s with column := s.column + Nat.toUInt32 length }) := by
  rw [readIntSuffix, bind_get, bind_peek] at run
  simp only [if_neg digits, bind_get] at run
  have same := intSuffix_isSome (s := s) rfl
  cases found : intSuffix s with
  | none =>
      rw [found] at run same
      simp only [pure_ok] at run
      exact ⟨run.1.symm, .inl ⟨same.symm, run.2.symm⟩⟩
  | some width =>
      rcases width with ⟨kind, length⟩
      rw [found] at run same
      simp only [bind_modify, pure_ok, bumps_eq] at run
      exact ⟨run.1.symm, .inr ⟨same.symm, length, intSuffix_length found, run.2.symm⟩⟩

theorem readInteger_ok (digits : s.peek ≠ '_') (run : readInteger start s = (.ok t, s')) :
    Counts (if suffixed s.rest then .suffixedInteger else .flat, s.rest) s t s' := by
  rw [readInteger, bind_get, bind_ok] at run
  rcases run with ⟨suffix, u, inner, outer⟩
  rw [literalText, bind_get, bind_ok] at outer
  rcases outer with ⟨value, v, parsed, made⟩
  rw [require_ok] at parsed
  rcases parsed with ⟨-, rfl⟩
  rcases readIntSuffix_ok digits inner with ⟨rfl, ⟨plain, rfl⟩ | ⟨wide, length, bounds, rfl⟩⟩
  · rw [plain]
    exact .inl ⟨rfl, consumes_token rfl (by simp) made⟩
  · rw [wide]
    cases made
    refine .inr ⟨rfl, ?_, rfl, rfl, by simp⟩
    exact ⟨[], s, length, Passes.refl s, by simp, rfl, bounds, rfl⟩

theorem readExponent_ok (run : readExponent s = (.ok (), s')) :
    (∃ cs, Passes s cs s') ∧ s'.rest = afterExponent s.rest := by
  rw [readExponent, bind_peek, bind_peek] at run
  by_cases letter : s.peek = 'e' ∨ s.peek = 'E'
  · rw [if_pos letter, bind_bump, bind_peek, bind_peek] at run
    have visible : s.peek ≠ '\x00' := by rcases letter with h | h <;> rw [h] <;> decide
    have text := Lexer.rest_of_peek rfl visible
    have first := Passes.bump text
    have next : s.bump.rest = s.rest.tail := Lexer.rest_bump s
    rw [text, afterExponent, if_pos letter]
    by_cases sign : s.bump.peek = '+' ∨ s.bump.peek = '-'
    · rw [if_pos sign] at run
      cases run
      have visible : s.bump.peek ≠ '\x00' := by rcases sign with h | h <;> rw [h] <;> decide
      have text' := Lexer.rest_of_peek rfl visible
      have second := Passes.bump text'
      refine ⟨⟨_, (first.trans second).trans (passes_skipped isDigitPart _)⟩, ?_⟩
      have skips := rest_skipped isDigitPart s.bump.bump
      rw [Lexer.rest_bump, next] at skips
      rw [next] at text'
      rw [text', afterSign, if_pos sign]
      exact skips
    · rw [if_neg sign] at run
      cases run
      refine ⟨⟨_, first.trans (passes_skipped isDigitPart _)⟩, ?_⟩
      have skips := rest_skipped isDigitPart s.bump
      rw [next] at skips
      rw [Lexer.peek_eq, next] at sign
      cases more : s.rest.tail with
      | nil =>
          rw [more] at skips
          exact skips
      | cons d rest =>
          rw [more] at skips sign
          rw [List.headD_cons] at sign
          rw [afterSign, if_neg sign]
          exact skips
  · rw [if_neg letter, pure_ok] at run
    rcases run with ⟨-, rfl⟩
    refine ⟨⟨[], Passes.refl s⟩, ?_⟩
    cases text : s.rest with
    | nil => rfl
    | cons c more =>
        rw [Lexer.peek_of_rest text] at letter
        rw [afterExponent, if_neg letter]

theorem readFloatSuffix_ok {kind : FloatType} (digits : s.peek ≠ '_')
    (run : readFloatSuffix s = (.ok kind, s')) :
    (∃ cs, Passes s cs s') ∧ s'.rest = afterFloatSuffix s.rest := by
  have three : ∀ {a b c : Char}, s.peek = a → s.peekNext = b → s.ahead 2 = c →
      a ≠ '\x00' → b ≠ '\x00' → c ≠ '\x00' → ∃ more, s.rest = a :: b :: c :: more := by
    intro a b c
    simp only [Lexer.peek, Lexer.peekNext, Lexer.ahead_eq]
    rcases s.rest with _ | ⟨a', _ | ⟨b', _ | ⟨c', more⟩⟩⟩ <;> simp <;> grind
  have bumped : ∀ {a b c : Char} {more : List Char}, s.rest = a :: b :: c :: more →
      (∃ cs, Passes s cs (bumps 3 s)) ∧ (bumps 3 s).rest = more := by
    intro a b c more text
    have second := Lexer.rest_bump_cons text
    have third := Lexer.rest_bump_cons second
    refine ⟨⟨_, ((Passes.bump text).trans (Passes.bump second)).trans (Passes.bump third)⟩, ?_⟩
    change s.bump.bump.bump.rest = more
    rw [Lexer.rest_bump, third]
    rfl
  rw [readFloatSuffix, bind_peek] at run
  simp only [if_neg digits, bind_peek, bind_peekNext, bind_get] at run
  by_cases single : s.peek = 'f' ∧ s.peekNext = '3' ∧ s.ahead 2 = '2'
  · rw [if_pos single, bind_modify, pure_ok] at run
    rcases run with ⟨-, rfl⟩
    rcases three single.1 single.2.1 single.2.2 (by decide) (by decide) (by decide) with
      ⟨more, text⟩
    refine ⟨(bumped text).1, ?_⟩
    rw [(bumped text).2, text]
    rfl
  · rw [if_neg single] at run
    simp only [bind_peek, bind_peekNext, bind_get] at run
    by_cases double : s.peek = 'f' ∧ s.peekNext = '6' ∧ s.ahead 2 = '4'
    · rw [if_pos double, bind_modify, pure_ok] at run
      rcases run with ⟨-, rfl⟩
      rcases three double.1 double.2.1 double.2.2 (by decide) (by decide) (by decide) with
        ⟨more, text⟩
      refine ⟨(bumped text).1, ?_⟩
      rw [(bumped text).2, text]
      rfl
    · rw [if_neg double, pure_ok] at run
      rcases run with ⟨-, rfl⟩
      refine ⟨⟨[], Passes.refl s⟩, ?_⟩
      rw [afterFloatSuffix, if_neg]
      revert single double
      simp only [Lexer.peek, Lexer.peekNext, Lexer.ahead_eq]
      rcases s.rest with _ | ⟨a', _ | ⟨b', _ | ⟨c', more⟩⟩⟩ <;> simp [List.isPrefixOf] <;> grind

theorem peek_behind_digits {text : List Char} (rest : s.rest = text.dropWhile isDigitPart) :
    isDigitPart s.peek = false := by
  rw [Lexer.peek_eq, rest]
  have stops := List.head?_dropWhile_not isDigitPart text
  cases behind : text.dropWhile isDigitPart with
  | nil => rfl
  | cons c more =>
      rw [behind] at stops
      exact Bool.eq_false_iff.mpr (by simpa using stops)

theorem ne_underscore (other : isDigitPart c = false) : c ≠ '_' := by
  rintro rfl
  exact absurd other (by decide)

theorem afterExponent_digits (text : List Char) :
    ∃ other : List Char,
      afterExponent (text.dropWhile isDigitPart) = other.dropWhile isDigitPart := by
  have stops := List.head?_dropWhile_not isDigitPart text
  cases behind : text.dropWhile isDigitPart with
  | nil => exact ⟨[], rfl⟩
  | cons c more =>
      rw [behind] at stops
      rw [afterExponent]
      by_cases letter : c = 'e' ∨ c = 'E'
      · rw [if_pos letter]
        exact ⟨_, rfl⟩
      · rw [if_neg letter]
        refine ⟨c :: more, ?_⟩
        rw [List.dropWhile_cons_of_neg]
        simpa using stops

theorem readFloat_ok (text : s.rest = c :: more) (run : readFloat start s = (.ok t, s')) :
    Consumes s t s' (afterFloatSuffix (afterExponent (more.dropWhile isDigitPart))) := by
  have next := Lexer.rest_bump_cons text
  rw [readFloat, bind_bump, bind_skipWhile, bind_ok] at run
  rcases run with ⟨_, u, exponent, run⟩
  rw [bind_get, bind_ok] at run
  rcases run with ⟨_, v, width, run⟩
  rw [literalText, bind_get, bind_ok] at run
  rcases run with ⟨value, w, parsed, made⟩
  rw [require_ok] at parsed
  rcases parsed with ⟨-, rfl⟩
  rcases readExponent_ok exponent with ⟨⟨cs, first⟩, behind⟩
  rw [rest_skipped, next] at behind
  have digits : u.peek ≠ '_' := by
    rcases afterExponent_digits more with ⟨other, same⟩
    exact ne_underscore (peek_behind_digits (behind.trans same))
  rcases readFloatSuffix_ok digits width with ⟨⟨ds, second⟩, rest⟩
  rw [← behind, ← rest]
  have whole := (((Passes.bump text).trans (passes_skipped isDigitPart _)).trans first).trans second
  by_cases finite : isFinite value
  · rw [if_pos finite] at made
    exact (consumes_token rfl (by simp) made).after whole
  · rw [if_neg finite] at made
    exact absurd made fail_ok

theorem Counts.after {outcome : Shape × List Char} (before : Passes s cs u) (flat : '\n' ∉ cs)
    (counts : Counts outcome u t s') : Counts outcome s t s' := by
  rcases counts with ⟨shape, consumes⟩ | ⟨shape, slips⟩
  · exact .inl ⟨shape, consumes.after before⟩
  · rcases slips.passes with ⟨ds, v, length, passes, flat', rest, bounds, same⟩
    have both : '\n' ∉ cs ++ ds := by simp [flat, flat']
    exact .inr ⟨shape, ⟨_, v, length, before.trans passes, both, rest, bounds, same⟩,
      slips.span, slips.kept, slips.inside⟩

theorem notMem_takeWhile (accepts : Char → Bool) (rejects : accepts '\n' = false)
    (text : List Char) : '\n' ∉ text.takeWhile accepts := by
  intro member
  have accepted := List.all_eq_true.mp List.all_takeWhile _ member
  rw [rejects] at accepted
  cases accepted

theorem getLast?_past (text : s.rest = c :: more) :
    s.past.getLast? = if 0 < s.pos then s.chars[s.pos - 1]? else none := by
  have inside : s.pos < s.chars.length := by
    have length := s.length_rest
    rw [text, List.length_cons] at length
    omega
  rw [Lexer.past, List.getLast?_take]
  by_cases start : s.pos = 0
  · simp [start]
  · have before : s.pos - 1 < s.chars.length := by omega
    simp [start, Nat.pos_of_ne_zero start, before]

theorem readDecimal_ok (text : s.rest = c :: more) (run : readDecimal s.pos s = (.ok t, s')) :
    Counts (decimal s.past.getLast? s.rest) s t s' := by
  have digits := passes_skipped isDigitPart s
  have behind := rest_skipped isDigitPart s
  have flat := notMem_takeWhile isDigitPart (by decide) s.rest
  rw [readDecimal, bind_skipWhile, bind_get, bind_peek, bind_peekNext] at run
  rw [digits.chars] at run
  have dot : (decide (0 < s.pos) && s.chars[s.pos - 1]? == some '.') =
      decide (s.past.getLast? = some '.') := by
    rw [getLast?_past text]
    by_cases start : 0 < s.pos
    · rw [Bool.eq_iff_iff]
      simp [start]
    · simp [start]
  rw [dot] at run
  have stops := peek_behind_digits behind
  refine Counts.after digits flat ?_
  unfold decimal
  rw [← behind]
  dsimp only
  generalize skipped isDigitPart s = u at run stops
  by_cases fraction : (!decide (s.past.getLast? = some '.')) = true ∧ u.peek = '.' ∧
      isDigitPart u.peekNext = true
  · rw [if_pos fraction] at run
    have point := Lexer.rest_of_peek fraction.2.1 (by decide)
    have digit := fraction.2.2
    rw [Lexer.peekNext, Lexer.ahead_eq, point] at digit
    cases tail : u.rest.tail with
    | nil =>
        rw [tail] at digit
        exact absurd digit (by decide)
    | cons d rest =>
        rw [tail] at digit point
        have apart : s.past.getLast? ≠ some '.' := by simpa using fraction.1
        rw [point]
        simp only
        rw [if_pos ⟨apart, digit⟩]
        exact .inl ⟨rfl, readFloat_ok point run⟩
  · rw [if_neg fraction] at run
    have integer := readInteger_ok (ne_underscore stops) run
    split
    · rename_i d rest point
      rw [if_neg]
      · exact integer
      · rintro ⟨apart, digit⟩
        refine fraction ⟨by simpa using apart, Lexer.peek_of_rest point, ?_⟩
        rw [Lexer.peekNext, Lexer.ahead_eq, point]
        exact digit
    · exact integer

theorem readRadixInt_ok {base : Nat} {digit : Char → Bool} {name : String} {d : Char}
    (text : s.rest = c :: d :: more) (run : readRadixInt base digit name start s = (.ok t, s')) :
    Consumes s t s' (more.dropWhile fun c => digit c || c == '_') := by
  have second := Lexer.rest_bump_cons text
  have third := Lexer.rest_bump_cons second
  rw [readRadixInt, bind_bump, bind_bump, bind_skipWhile, bind_get, literalText, bind_get,
    bind_ok] at run
  rcases run with ⟨value, u, parsed, made⟩
  rw [require_ok] at parsed
  rcases parsed with ⟨-, rfl⟩
  have token := consumes_token rfl (by simp) made
  rw [rest_skipped, third] at token
  exact token.after (((Passes.bump text).trans (Passes.bump second)).trans (passes_skipped _ _))

theorem readNumber_ok (text : s.rest = c :: more) (run : readNumber s = (.ok t, s')) :
    Counts (number s.past.getLast? s.rest) s t s' := by
  rw [readNumber, bind_get, bind_peekNext, bind_peek, Lexer.peek_of_rest text] at run
  by_cases zero : c = '0'
  · subst zero
    rw [if_pos rfl] at run
    cases more with
    | nil =>
        have next : s.peekNext = '\x00' := by
          rw [Lexer.peekNext, Lexer.ahead_eq, text]
          rfl
        rw [next] at run
        simp only [show ¬ ('\x00' = 'x' ∨ '\x00' = 'X') by decide,
          show ¬ ('\x00' = 'o' ∨ '\x00' = 'O') by decide,
          show ¬ ('\x00' = 'b' ∨ '\x00' = 'B') by decide,
          show ¬ (isDigit '\x00' = true ∨ '\x00' = '.' ∨ '\x00' = '_') by decide,
          if_false, bind_bump] at run
        rw [text]
        have token := consumes_token rfl (by simp) run
        rw [Lexer.rest_bump, text] at token
        exact .inl ⟨rfl, token.after (Passes.bump text)⟩
    | cons d rest =>
        have next : s.peekNext = d := by
          rw [Lexer.peekNext, Lexer.ahead_eq, text]
          rfl
        rw [next] at run
        by_cases hex : d = 'x' ∨ d = 'X'
        · rw [if_pos hex] at run
          rw [text, number, if_pos hex]
          exact .inl ⟨rfl, readRadixInt_ok text run⟩
        · rw [if_neg hex] at run
          by_cases octal : d = 'o' ∨ d = 'O'
          · rw [if_pos octal] at run
            rw [text, number, if_neg hex, if_pos octal]
            exact .inl ⟨rfl, readRadixInt_ok text run⟩
          · rw [if_neg octal] at run
            by_cases binary : d = 'b' ∨ d = 'B'
            · rw [if_pos binary] at run
              rw [text, number, if_neg hex, if_neg octal, if_pos binary]
              exact .inl ⟨rfl, readRadixInt_ok text run⟩
            · rw [if_neg binary] at run
              by_cases more : isDigit d ∨ d = '.' ∨ d = '_'
              · rw [if_pos more] at run
                have counts := readDecimal_ok text run
                rw [text] at counts ⊢
                rw [number, if_neg hex, if_neg octal, if_neg binary, if_pos more]
                exact counts
              · rw [if_neg more, bind_bump] at run
                rw [text, number, if_neg hex, if_neg octal, if_neg binary, if_neg more]
                have token := consumes_token rfl (by simp) run
                rw [Lexer.rest_bump, text] at token
                exact .inl ⟨rfl, token.after (Passes.bump text)⟩
  · rw [if_neg zero] at run
    have counts := readDecimal_ok text run
    rw [text] at counts ⊢
    rw [number]
    · exact counts
    · rintro d rest ⟨⟩
      exact zero rfl
    · rintro ⟨⟩
      exact zero rfl

end Tinox.Lexer
