import Tinox.Lexer.Readers

/-!
# Places and lexemes of a text

What source positions are meant to be: the line and the column of a place are
functions of the text in front of it.  And the lexical structure of a text on
its own, without counters: where its lexemes end, and which of them keep the
counters of the lexer in step with the text.
-/

namespace Tinox.Lexer

/-- The line behind a stretch of text that starts a file. -/
def lineOf (before : List Char) : Nat :=
  1 + before.count '\n'

/-- The column behind a stretch of text that starts a file. -/
def columnOf (before : List Char) : Nat :=
  1 + (before.reverse.takeWhile (· != '\n')).length

theorem lineOf_append (first second : List Char) :
    lineOf (first ++ second) = lineOf first + second.count '\n' := by
  rw [lineOf, lineOf, List.count_append, Nat.add_assoc]

theorem lineOf_append_of_notMem {second : List Char} (flat : '\n' ∉ second)
    (first : List Char) : lineOf (first ++ second) = lineOf first := by
  rw [lineOf_append, List.count_eq_zero_of_not_mem flat, Nat.add_zero]

theorem lineOf_lt_append {second : List Char} (broken : '\n' ∈ second) (first : List Char) :
    lineOf first < lineOf (first ++ second) := by
  rw [lineOf_append]
  exact Nat.lt_add_of_pos_right (List.count_pos_iff.mpr broken)

theorem columnOf_snoc (before : List Char) (c : Char) :
    columnOf (before ++ [c]) = if c = '\n' then 1 else columnOf before + 1 := by
  rw [columnOf, columnOf, List.reverse_append, List.reverse_singleton, List.singleton_append,
    List.takeWhile_cons]
  by_cases newline : c = '\n'
  · simp [newline]
  · simp [newline, Nat.add_assoc]

theorem columnOf_append_of_notMem {second : List Char} (flat : '\n' ∉ second)
    (first : List Char) : columnOf (first ++ second) = columnOf first + second.length := by
  induction second generalizing first with
  | nil => simp
  | cons c rest ih =>
      have head : c ≠ '\n' := fun same => flat (same ▸ List.mem_cons_self)
      have tail : '\n' ∉ rest := fun member => flat (List.mem_cons_of_mem _ member)
      rw [List.append_cons, ih tail, columnOf_snoc, if_neg head, List.length_cons]
      rw [Nat.add_assoc, Nat.add_comm 1]

theorem columnOf_le (before : List Char) : columnOf before ≤ before.length + 1 := by
  have shorter := (List.takeWhile_prefix (· != '\n') (l := before.reverse)).length_le
  rw [List.length_reverse] at shorter
  rw [columnOf, Nat.add_comm]
  exact Nat.succ_le_succ shorter

/-- The places of a text are 32-bit numbers. -/
structure Fits (text : List Char) : Prop where
  length : text.length < 2 ^ 32
  line : lineOf text < 2 ^ 32
  column : columnOf text < 2 ^ 32

theorem Fits.lineOf_take {text : List Char} (fits : Fits text) (offset : Nat) :
    lineOf (text.take offset) < 2 ^ 32 := by
  have more : lineOf (text.take offset) ≤ lineOf text := by
    rw [lineOf, lineOf]
    exact Nat.add_le_add_left ((List.take_sublist offset text).count_le '\n') 1
  exact Nat.lt_of_le_of_lt more fits.line

theorem Fits.columnOf_take {text : List Char} (fits : Fits text) (offset : Nat) :
    columnOf (text.take offset) < 2 ^ 32 := by
  by_cases inside : offset < text.length
  · have short := columnOf_le (text.take offset)
    rw [List.length_take_of_le (Nat.le_of_lt inside)] at short
    exact Nat.lt_of_le_of_lt short (Nat.lt_of_le_of_lt inside fits.length)
  · rw [List.take_of_length_le (Nat.le_of_not_lt inside)]
    exact fits.column

/-- A place lies at the line and the column that the text in front of it
determines. -/
def Pos.InPlace (text : List Char) (p : Pos) : Prop :=
  p.line.toNat = lineOf (text.take p.offset.toNat) ∧
    p.column.toNat = columnOf (text.take p.offset.toNat)

/-- The spans of a token list are exact for a text. -/
structure Exact (text : List Char) (tokens : List Token) : Prop where
  /-- No token ends before it starts. -/
  forward : ∀ t ∈ tokens, t.span.start.offset ≤ t.span.finish.offset
  /-- Tokens come in order and do not overlap. -/
  apart : tokens.Pairwise fun first second => first.span.finish.offset ≤ second.span.start.offset
  /-- Lines and columns belong to the offsets. -/
  inPlace : ∀ t ∈ tokens, t.span.start.InPlace text ∧ t.span.finish.InPlace text
  /-- Offsets count the characters of the text: the last token ends with it. -/
  whole : ∀ t ∈ tokens.getLast?, t.span.finish.offset.toNat = text.length

/-- The text behind the next `*` `/`. -/
def afterComment : List Char → List Char
  | [] => []
  | '*' :: '/' :: rest => rest
  | _ :: rest => afterComment rest

/-- The text behind the next quote of a string, at a depth of braces inside
`${..}`. -/
def afterString : Nat → List Char → List Char
  | _, [] => []
  | 0, '"' :: rest => rest
  | 0, '\\' :: _ :: rest => afterString 0 rest
  | 0, '$' :: '{' :: rest => afterString 1 rest
  | 0, _ :: rest => afterString 0 rest
  | depth + 1, '{' :: rest => afterString (depth + 2) rest
  | depth + 1, '}' :: rest => afterString depth rest
  | depth + 1, _ :: rest => afterString (depth + 1) rest

/-- The text behind the quote and the hash signs that end a raw string. -/
def afterRawString (hashes : Nat) : List Char → List Char
  | [] => []
  | c :: rest =>
      if c = '"' ∧ rest.take hashes = List.replicate hashes '#' then rest.drop hashes
      else afterRawString hashes rest

/-- The text behind the quote that ends a character. -/
def afterChar : List Char → List Char
  | [] => []
  | '\\' :: rest => ((rest.drop 1).dropWhile (· != '\'')).drop 1
  | _ :: rest => rest.drop 1

/-- The widths that may follow an integer. -/
def intSuffixes : List (List Char) :=
  [['u', '8'], ['u', '1', '6'], ['u', '3', '2'], ['u', '6', '4'],
    ['i', '8'], ['i', '1', '6'], ['i', '3', '2'], ['i', '6', '4'],
    ['u', 's', 'i', 'z'], ['i', 's', 'i', 'z']]

/-- A number is directly followed by a width, as in `42i32`. -/
def suffixed (text : List Char) : Bool :=
  intSuffixes.any fun suffix => suffix.isPrefixOf text

/-- The text behind a sign. -/
def afterSign : List Char → List Char
  | [] => []
  | c :: rest => if c = '+' ∨ c = '-' then rest else c :: rest

/-- The text behind an exponent. -/
def afterExponent : List Char → List Char
  | [] => []
  | c :: rest =>
      if c = 'e' ∨ c = 'E' then (afterSign rest).dropWhile isDigitPart else c :: rest

/-- The text behind the width of a float. -/
def afterFloatSuffix (text : List Char) : List Char :=
  if ['f', '3', '2'].isPrefixOf text ∨ ['f', '6', '4'].isPrefixOf text then text.drop 3 else text

/-- What a lexeme is to the counters of the lexer: one that may hold line
breaks, one that may not, or an integer with a suffix. -/
inductive Shape where
  | blank
  | flat
  | suffixedInteger
  deriving DecidableEq, Repr

/-- A number without `0x`, `0o` or `0b`: an integer if it stands behind a dot
or no fraction follows. -/
def decimal (before : Option Char) (text : List Char) : Shape × List Char :=
  let rest := text.dropWhile isDigitPart
  let integer : Shape × List Char := (if suffixed rest then .suffixedInteger else .flat, rest)
  match rest with
  | '.' :: c :: more =>
      if before ≠ some '.' ∧ isDigitPart c then
        (.flat, afterFloatSuffix (afterExponent ((c :: more).dropWhile isDigitPart)))
      else integer
  | _ => integer

/-- A number, and the text behind it. -/
def number (before : Option Char) : List Char → Shape × List Char
  | '0' :: c :: rest =>
      if c = 'x' ∨ c = 'X' then (.flat, rest.dropWhile fun c => isHexDigit c || c == '_')
      else if c = 'o' ∨ c = 'O' then
        (.flat, rest.dropWhile fun c => isDigit c && c != '8' && c != '9' || c == '_')
      else if c = 'b' ∨ c = 'B' then (.flat, rest.dropWhile fun c => c == '0' || c == '1' || c == '_')
      else if isDigit c ∨ c = '.' ∨ c = '_' then decimal before ('0' :: c :: rest)
      else (.flat, c :: rest)
  | ['0'] => (.flat, [])
  | text => decimal before text

/-- A comment, or the operator that a slash is, by the text behind the slash. -/
def slash : List Char → Shape × List Char
  | [] => (.flat, [])
  | c :: rest =>
      if c = '/' then (.blank, rest.dropWhile (· != '\n'))
      else if c = '*' then
        if rest.head? = some '*' then (.flat, afterComment rest.tail)
        else (.blank, afterComment rest)
      else (.flat, c :: rest)

/-- The lexeme at the front of a text, behind a character: its shape and the
text behind it.  Operators come character by character. -/
def lexeme (before : Option Char) : List Char → Shape × List Char
  | [] => (.blank, [])
  | c :: rest =>
      if c = '\n' ∨ c = ' ' ∨ c = '\t' ∨ c = '\r' then (.blank, rest)
      else if c = '/' then slash rest
      else if c = '"' then (.flat, afterString 0 rest)
      else if c = 'r' ∧ rest.head? = some '"' then (.flat, afterRawString 0 (rest.drop 1))
      else if c = 'r' ∧ rest.take 2 = ['#', '"'] then (.flat, afterRawString 1 (rest.drop 2))
      else if c = '\'' then (.flat, afterChar rest)
      else if isDigit c then number before (c :: rest)
      else if c = 'b' ∧ rest.head? = some '\'' then (.flat, afterChar (rest.drop 1))
      else if isIdentStart c then (.flat, rest.dropWhile isIdentPart)
      else (.flat, rest)

/-- A lexeme keeps the counters in step: a plain comment or white space, or
anything else on one line but an integer with a suffix. -/
def Shape.InStep (shape : Shape) (lexeme : List Char) : Prop :=
  shape = .blank ∨ shape = .flat ∧ '\n' ∉ lexeme

/-- All lexemes of a text, behind a character, keep the counters in step. -/
inductive Tidy : Option Char → List Char → Prop where
  | done {before : Option Char} : Tidy before []
  | step {before : Option Char} {shape : Shape} {first : Char} {body rest : List Char} :
      lexeme before (first :: body ++ rest) = (shape, rest) →
      shape.InStep (first :: body) →
      Tidy (first :: body).getLast? rest →
      Tidy before (first :: body ++ rest)

theorem afterComment_suffix (text : List Char) : afterComment text <:+ text := by
  fun_induction afterComment text with
  | case1 => exact List.suffix_refl _
  | case2 rest => exact ⟨['*', '/'], rfl⟩
  | case3 c rest _ ih => exact ih.trans (List.suffix_cons c rest)

theorem afterString_suffix (depth : Nat) (text : List Char) : afterString depth text <:+ text := by
  fun_induction afterString depth text with
  | case1 => exact List.suffix_refl _
  | case2 rest => exact List.suffix_cons _ rest
  | case3 c rest ih => exact ih.trans ⟨['\\', c], rfl⟩
  | case4 rest ih => exact ih.trans ⟨['$', '{'], rfl⟩
  | case5 c rest _ _ _ ih | case8 depth c rest _ _ ih => exact ih.trans (List.suffix_cons c rest)
  | case6 depth rest ih | case7 depth rest ih => exact ih.trans (List.suffix_cons _ rest)

theorem afterRawString_suffix (hashes : Nat) (text : List Char) :
    afterRawString hashes text <:+ text := by
  induction text with
  | nil => exact List.suffix_refl _
  | cons c rest ih =>
      rw [afterRawString]
      split
      · exact (List.drop_suffix hashes rest).trans (List.suffix_cons c rest)
      · exact ih.trans (List.suffix_cons c rest)

theorem afterChar_suffix (text : List Char) : afterChar text <:+ text := by
  unfold afterChar
  split
  · exact List.suffix_refl _
  · rename_i rest
    exact (List.drop_suffix _ _).trans ((List.dropWhile_suffix _).trans
      ((List.drop_suffix _ rest).trans (List.suffix_cons _ rest)))
  · rename_i c rest _
    exact (List.drop_suffix _ rest).trans (List.suffix_cons c rest)

theorem afterExponent_suffix (text : List Char) : afterExponent text <:+ text := by
  cases text with
  | nil => exact List.suffix_refl _
  | cons c rest =>
      have sign : afterSign rest <:+ rest := by
        cases rest with
        | nil => exact List.suffix_refl _
        | cons d rest =>
            rw [afterSign]
            split
            · exact List.suffix_cons d rest
            · exact List.suffix_refl _
      rw [afterExponent]
      split
      · exact (List.dropWhile_suffix _).trans (sign.trans (List.suffix_cons c rest))
      · exact List.suffix_refl _

theorem afterFloatSuffix_suffix (text : List Char) : afterFloatSuffix text <:+ text := by
  rw [afterFloatSuffix]
  split
  · exact List.drop_suffix 3 text
  · exact List.suffix_refl _

theorem decimal_suffix {before : Option Char} {c : Char} (digit : isDigitPart c) (rest : List Char) :
    (decimal before (c :: rest)).2 <:+ rest := by
  have digits : (c :: rest).dropWhile isDigitPart <:+ rest := by
    rw [List.dropWhile_cons_of_pos digit]
    exact List.dropWhile_suffix _
  unfold decimal
  dsimp only
  split
  · rename_i d more point
    rw [point] at digits
    split
    · have fraction : d :: more <:+ '.' :: d :: more := List.suffix_cons _ _
      exact (afterFloatSuffix_suffix _).trans ((afterExponent_suffix _).trans
        ((List.dropWhile_suffix _).trans (fraction.trans digits)))
    · rw [point]
      exact digits
  · exact digits

theorem number_suffix {before : Option Char} {c : Char} (digit : isDigit c) (rest : List Char) :
    (number before (c :: rest)).2 <:+ rest := by
  have part : isDigitPart c := by rw [isDigitPart, digit]; rfl
  unfold number
  split
  · rename_i d more same
    injection same with first tail
    subst first tail
    have behind : more <:+ d :: more := List.suffix_cons d more
    split
    · exact (List.dropWhile_suffix _).trans behind
    · split
      · exact (List.dropWhile_suffix _).trans behind
      · split
        · exact (List.dropWhile_suffix _).trans behind
        · split
          · exact decimal_suffix part _
          · exact List.suffix_refl _
  · exact List.nil_suffix
  · exact decimal_suffix part rest

theorem slash_suffix (text : List Char) : (slash text).2 <:+ text := by
  cases text with
  | nil => exact List.suffix_refl _
  | cons c rest =>
      rw [slash]
      split
      · exact (List.dropWhile_suffix _).trans (List.suffix_cons c rest)
      · split
        · split
          · exact (afterComment_suffix _).trans ((List.tail_suffix rest).trans
              (List.suffix_cons c rest))
          · exact (afterComment_suffix _).trans (List.suffix_cons c rest)
        · exact List.suffix_refl _

theorem lexeme_suffix (before : Option Char) (c : Char) (rest : List Char) :
    (lexeme before (c :: rest)).2 <:+ rest := by
  rw [lexeme]
  split
  · exact List.suffix_refl _
  split
  · exact slash_suffix rest
  split
  · exact afterString_suffix 0 rest
  split
  · exact (afterRawString_suffix 0 _).trans (List.drop_suffix 1 rest)
  split
  · exact (afterRawString_suffix 1 _).trans (List.drop_suffix 2 rest)
  split
  · exact afterChar_suffix rest
  split
  · exact number_suffix ‹_› rest
  split
  · exact (afterChar_suffix _).trans (List.drop_suffix 1 rest)
  split
  · exact List.dropWhile_suffix _
  · exact List.suffix_refl _

theorem lexeme_ne_nil {before : Option Char} {shape : Shape} {cs rest : List Char}
    (inside : cs ++ rest ≠ []) (found : lexeme before (cs ++ rest) = (shape, rest)) : cs ≠ [] := by
  rintro rfl
  cases rest with
  | nil => exact inside rfl
  | cons c rest =>
      have shorter := (lexeme_suffix before c rest).length_le
      rw [List.nil_append] at found
      rw [found, List.length_cons] at shorter
      exact absurd shorter (Nat.not_succ_le_self _)

/-- A text is tidy if its first lexeme keeps the counters in step and the rest
is tidy. -/
theorem tidy_iff {before : Option Char} {shape : Shape} {cs rest : List Char}
    (inside : cs ++ rest ≠ []) (found : lexeme before (cs ++ rest) = (shape, rest)) :
    Tidy before (cs ++ rest) ↔ shape.InStep cs ∧ Tidy cs.getLast? rest := by
  have nonempty := lexeme_ne_nil inside found
  constructor
  · intro tidy
    generalize text : cs ++ rest = whole at tidy found
    cases tidy with
    | done =>
        rw [List.append_eq_nil_iff] at text
        exact absurd text.1 nonempty
    | @step _ shape' first body rest' found' inStep tail =>
        rw [found] at found'
        injection found' with sameShape sameRest
        rw [← sameRest] at text tail
        have sameBody := List.append_cancel_right text
        rw [← sameShape, ← sameBody] at inStep
        rw [← sameBody] at tail
        exact ⟨inStep, tail⟩
  · rintro ⟨inStep, tail⟩
    cases cs with
    | nil => exact absurd rfl nonempty
    | cons first body => exact .step found inStep tail

theorem lexeme_symbol {c : Char} (symbol : (symbolReader c).isSome) (before : Option Char)
    (rest : List Char) : lexeme before (c :: rest) = (.flat, rest) := by
  unfold symbolReader at symbol
  split at symbol
  case h_26 => cases symbol
  all_goals rfl

theorem symbol_ne_newline {c : Char} (symbol : (symbolReader c).isSome) : c ≠ '\n' := by
  rintro rfl
  cases symbol

theorem tidy_symbols {before : Option Char} {cs : List Char}
    (symbols : ∀ c ∈ cs, (symbolReader c).isSome) (nonempty : cs ≠ []) (rest : List Char) :
    Tidy before (cs ++ rest) ↔ Tidy cs.getLast? rest := by
  induction cs generalizing before with
  | nil => exact absurd rfl nonempty
  | cons c cs ih =>
      have symbol := symbols c List.mem_cons_self
      have flat : Shape.flat.InStep [c] :=
        .inr ⟨rfl, by simpa using (symbol_ne_newline symbol).symm⟩
      have head : Tidy before ([c] ++ (cs ++ rest)) ↔ Tidy (some c) (cs ++ rest) := by
        rw [tidy_iff (by simp) (lexeme_symbol symbol before (cs ++ rest))]
        simp [flat]
      rw [List.cons_append]
      refine head.trans ?_
      cases cs with
      | nil => rfl
      | cons d cs =>
          rw [ih (fun e member => symbols e (List.mem_cons_of_mem c member)) (by simp)]
          rfl

end Tinox.Lexer
