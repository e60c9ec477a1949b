import Tinox.Lexer.Positions

/-!
# The lexer behind other text

Lexing does not look back: behind text that does not end with a point a reader
does what it does at the start of a text.  Only the places of tokens and errors
differ.  Nor does a reader move back behind the place where it started.
-/

namespace Tinox.Lexer

open Tinox.Syntax
open Read

/-- A later state of the same text. -/
structure Lexer.Before (s s' : Lexer) : Prop where
  chars : s'.chars = s.chars
  pos : s.pos ≤ s'.pos

theorem Lexer.Before.refl (s : Lexer) : s.Before s :=
  ⟨rfl, Nat.le_refl _⟩

theorem Lexer.Before.trans {s t u : Lexer} (first : s.Before t) (second : t.Before u) :
    s.Before u :=
  ⟨second.chars.trans first.chars, Nat.le_trans first.pos second.pos⟩

theorem bumpWhile_before (test : Lexer → Bool) (count : Nat) (s : Lexer) :
    s.Before (bumpWhile test count s) := by
  induction count generalizing s with
  | zero => exact .refl s
  | succ count ih =>
      rw [bumpWhile]
      have further : s.Before s.bump := ⟨rfl, Nat.le_succ s.pos⟩
      split
      · exact further.trans (ih s.bump)
      · exact .refl s

/-- The state `s'` is the state `s` behind the text `front`. -/
structure Shift (front : List Char) (s s' : Lexer) : Prop where
  chars : s'.chars = front ++ s.chars
  pos : s'.pos = front.length + s.pos
  noPoint : front.getLast? ≠ some '.'

namespace Shift

variable {front : List Char} {s s' : Lexer}

theorem left (shift : Shift front s s') : s'.chars.length - s'.pos = s.chars.length - s.pos := by
  rw [shift.chars, shift.pos, List.length_append, Nat.add_sub_add_left]

theorem ahead (shift : Shift front s s') (distance : Nat) :
    s'.ahead distance = s.ahead distance := by
  rw [Lexer.ahead, Lexer.ahead, shift.chars, shift.pos, Nat.add_assoc,
    List.getElem?_append_right (Nat.le_add_right _ _), Nat.add_sub_cancel_left]

theorem drop (shift : Shift front s s') (count : Nat) :
    s'.chars.drop (front.length + count) = s.chars.drop count := by
  rw [shift.chars, List.drop_length_add_append]

theorem slice (shift : Shift front s s') (first last : Nat) :
    s'.slice (front.length + first) (front.length + last) = s.slice first last := by
  rw [Lexer.slice, Lexer.slice, shift.drop, Nat.add_sub_add_left]

theorem atEnd (shift : Shift front s s') :
    s'.chars.length ≤ s'.pos ↔ s.chars.length ≤ s.pos := by
  rw [shift.chars, shift.pos, List.length_append, Nat.add_le_add_iff_left]

theorem move {t t' : Lexer} (shift : Shift front s s') (distance : Nat) (chars : t.chars = s.chars)
    (chars' : t'.chars = s'.chars) (pos : t.pos = s.pos + distance)
    (pos' : t'.pos = s'.pos + distance) : Shift front t t' where
  chars := by rw [chars', shift.chars, chars]
  pos := by rw [pos', shift.pos, pos, Nat.add_assoc]
  noPoint := shift.noPoint

theorem bump (shift : Shift front s s') : Shift front s.bump s'.bump :=
  shift.move 1 rfl rfl rfl rfl

theorem bumpWhile {test : Lexer → Bool}
    (agrees : ∀ {s s' : Lexer}, Shift front s s' → test s' = test s) (count : Nat)
    (shift : Shift front s s') :
    Shift front (bumpWhile test count s) (Lexer.bumpWhile test count s') := by
  induction count generalizing s s' with
  | zero => exact shift
  | succ count ih =>
      rw [Tinox.Lexer.bumpWhile, Tinox.Lexer.bumpWhile, agrees shift]
      split
      · exact ih shift.bump
      · exact shift

end Shift

/-- Tokens of one kind. -/
def SameKind (t t' : Token) : Prop :=
  t'.kind = t.kind

/-- Results that correspond, errors by their messages. -/
inductive Corresponds {α : Type} (same : α → α → Prop) : Except Error α → Except Error α → Prop
  | ok {a a' : α} (values : same a a') : Corresponds same (.ok a) (.ok a')
  | error {e e' : Error} (messages : e'.message = e.message) :
      Corresponds same (.error e) (.error e')

/-- The reader `p'` does behind the text `front` what `p` does without it, and `p` does not move
back. -/
class Shifts {α : Type} (front : List Char) (same : α → α → Prop) (p p' : Read α) :
    Prop where
  run : ∀ {s s' : Lexer}, Shift front s s' →
    Corresponds same (p s).1 (p' s').1 ∧ Shift front (p s).2 (p' s').2
  before : ∀ s : Lexer, s.Before (p s).2

section Instances

variable {α β : Type} {front : List Char} {same : α → α → Prop} {same' : β → β → Prop}

instance (a : α) : Shifts front Eq (Pure.pure a : Read α) (Pure.pure a) :=
  ⟨fun shift => ⟨.ok rfl, shift⟩, .refl⟩

instance (message : String) :
    Shifts front same (Read.fail message) (Read.fail message) :=
  ⟨fun shift => ⟨.error rfl, shift⟩, .refl⟩

instance (kind : TokenKind) : Shifts front SameKind (Read.token kind) (Read.token kind) :=
  ⟨fun shift => ⟨.ok rfl, shift⟩, .refl⟩

theorem Shifts.get {f f' : Lexer → α}
    (agrees : ∀ {s s' : Lexer}, Shift front s s' → f' s' = f s) :
    Shifts front Eq (Read.get f) (Read.get f') :=
  ⟨fun shift => ⟨.ok (agrees shift).symm, shift⟩, .refl⟩

theorem Shifts.modify {f f' : Lexer → Lexer} (before : ∀ s : Lexer, s.Before (f s))
    (agrees : ∀ {s s' : Lexer}, Shift front s s' → Shift front (f s) (f' s')) :
    Shifts front Eq (Read.modify f) (Read.modify f') :=
  ⟨fun shift => ⟨.ok rfl, agrees shift⟩, before⟩

instance : Shifts front Eq peek peek :=
  .get fun shift => shift.ahead 0

instance : Shifts front Eq peekNext peekNext :=
  .get fun shift => shift.ahead 1

instance (distance : Nat) :
    Shifts front Eq (Read.get fun s => s.ahead distance) (Read.get fun s => s.ahead distance) :=
  .get fun shift => shift.ahead distance

instance : Shifts front Eq atEnd atEnd :=
  .get fun shift => decide_eq_decide.mpr shift.atEnd

instance : Shifts front Eq (Read.get fun s => s.chars.length - s.pos)
    (Read.get fun s => s.chars.length - s.pos) :=
  .get fun shift => shift.left

instance (start : Nat) : Shifts front Eq (Read.get fun s => s.slice start s.pos)
    (Read.get fun s => s.slice (front.length + start) s.pos) :=
  .get fun {s s'} shift => by rw [shift.pos, shift.slice]

instance (start finish : Nat) : Shifts front Eq (literalText start finish)
    (literalText (front.length + start) (front.length + finish)) :=
  .get fun {s s'} shift => by rw [shift.slice]

instance : Shifts front Eq bump bump :=
  .modify (fun s => ⟨rfl, Nat.le_succ s.pos⟩) fun shift => shift.bump

instance : Shifts front Eq (Read.modify fun s => { s with line := s.line + 1, column := 0 })
    (Read.modify fun s => { s with line := s.line + 1, column := 0 }) :=
  .modify (fun _ => ⟨rfl, Nat.le_refl _⟩) fun shift => shift.move 0 rfl rfl rfl rfl

instance : Shifts front Eq (Read.modify fun s => s.newline) (Read.modify fun s => s.newline) :=
  .modify (fun _ => ⟨rfl, Nat.le_refl _⟩) fun shift => shift.move 0 rfl rfl rfl rfl

instance (test : Char → Bool) : Shifts front Eq (skipWhile test) (skipWhile test) :=
  .modify (fun _ => bumpWhile_before _ _ _) fun {s s'} shift => by
    rw [shift.left]
    exact shift.bumpWhile (fun shift => congrArg test (shift.ahead 0)) _

instance (message : String) (value : Option α) :
    Shifts front Eq (Read.require message value) (Read.require message value) := by
  cases value with
  | none => exact inferInstanceAs (Shifts front Eq (Read.fail message) (Read.fail message))
  | some a => exact inferInstanceAs (Shifts front Eq (Pure.pure a : Read α) (Pure.pure a))

instance Shifts.bind (p p' : Read α) (f f' : α → Read β) [first : Shifts front Eq p p']
    [second : ∀ a, Shifts front same' (f a) (f' a)] : Shifts front same' (p >>= f) (p' >>= f') where
  run {s s'} shift := by
    have read := first.run shift
    rw [bind_apply, bind_apply]
    generalize p s = outcome at read
    generalize p' s' = outcome' at read
    rcases outcome with ⟨result, t⟩
    rcases outcome' with ⟨result', t'⟩
    cases read.1 with
    | ok values =>
        cases values
        exact (second _).run read.2
    | error messages => exact ⟨.error messages, read.2⟩
  before s := by
    have moved := first.before s
    rw [bind_apply]
    rcases run : p s with ⟨e | a, t⟩
    · rw [run] at moved
      exact moved
    · rw [run] at moved
      exact moved.trans ((second a).before t)

theorem Shifts.next {p p' : Read α} {f f' : α → Read β} [Shifts front Eq p p']
    (after : ∀ a, Shifts front same' (f a) (f' a)) : Shifts front same' (p >>= f) (p' >>= f') :=
  bind p p' f f'

/-- A position that is read is that of the other lexer behind the front. -/
instance Shifts.bind_pos (f f' : Nat → Read β)
    [after : ∀ pos, Shifts front same' (f pos) (f' (front.length + pos))] :
    Shifts front same' (Read.get (·.pos) >>= f) (Read.get (·.pos) >>= f') where
  run {s s'} shift := by
    rw [bind_get, bind_get, shift.pos]
    exact (after s.pos).run shift
  before s := (after s.pos).before s

instance (c : Prop) [Decidable c] (p q p' q' : Read α) [Shifts front same p p']
    [Shifts front same q q'] :
    Shifts front same (if c then p else q) (if c then p' else q') := by
  split <;> infer_instance

instance : Shifts front SameKind readOperator readOperator := by
  unfold readOperator
  infer_instance

instance : Shifts front SameKind readLineComment readLineComment := by
  have skip : Shifts front Eq
      (Read.modify fun s =>
        bumpWhile (fun s => s.pos < s.chars.length && s.peek != '\n') (s.chars.length - s.pos) s)
      (Read.modify fun s =>
        bumpWhile (fun s => s.pos < s.chars.length && s.peek != '\n')
          (s.chars.length - s.pos) s) :=
    .modify (fun _ => bumpWhile_before _ _ _) fun {s s'} shift => by
      rw [shift.left]
      refine shift.bumpWhile (fun {s s'} shift => ?_) _
      have inside : s'.pos < s'.chars.length ↔ s.pos < s.chars.length := by
        rw [← Nat.not_le, shift.atEnd, Nat.not_le]
      rw [Lexer.peek, shift.ahead 0, decide_eq_decide.mpr inside]
      rfl
  unfold readLineComment
  infer_instance

instance (isDoc : Bool) (text : List Char) :
    Shifts front SameKind (blockComment isDoc text) (blockComment isDoc text) := by
  unfold blockComment
  infer_instance

instance (isDoc : Bool) (start count : Nat) :
    Shifts front SameKind (blockCommentLoop isDoc start count)
      (blockCommentLoop isDoc (front.length + start) count) := by
  induction count with
  | zero | succ count ih =>
      unfold blockCommentLoop
      infer_instance

instance : Shifts front SameKind readBlockComment readBlockComment := by
  unfold readBlockComment
  infer_instance

instance : Shifts front SameKind readIdentOrKeyword readIdentOrKeyword := by
  unfold readIdentOrKeyword
  infer_instance

instance : Shifts front Eq readHexDigit readHexDigit := by
  unfold readHexDigit
  infer_instance

instance (c : Char) : Shifts front Eq (expectChar c) (expectChar c) := by
  unfold expectChar
  infer_instance

instance (count value : Nat) :
    Shifts front Eq (readBracedDigits count value) (readBracedDigits count value) := by
  induction count generalizing value with
  | zero => exact inferInstanceAs (Shifts front Eq (Pure.pure _) (Pure.pure _))
  | succ count ih =>
      unfold readBracedDigits
      infer_instance

instance (count value : Nat) :
    Shifts front Eq (readDigits count value) (readDigits count value) := by
  induction count generalizing value with
  | zero => exact inferInstanceAs (Shifts front Eq (Pure.pure _) (Pure.pure _))
  | succ count ih =>
      unfold readDigits
      infer_instance

instance : Shifts front Eq readEscape readEscape := by
  refine @Shifts.bind _ _ _ _ _ _ _ _ _ fun ch => ?_
  refine @Shifts.bind _ _ _ _ _ _ _ _ _ fun _ => ?_
  split <;> infer_instance

instance (count depth : Nat) (source : String) :
    Shifts front Eq (readInterpolation count depth source)
      (readInterpolation count depth source) := by
  induction count generalizing depth source with
  | zero => exact inferInstanceAs (Shifts front Eq (Pure.pure source) (Pure.pure source))
  | succ count ih =>
      unfold readInterpolation
      infer_instance

instance (count : Nat) (found : StringParts) :
    Shifts front Eq (readStringLoop count found) (readStringLoop count found) := by
  induction count generalizing found with
  | zero => exact inferInstanceAs (Shifts front Eq (Pure.pure found) (Pure.pure found))
  | succ count ih =>
      unfold readStringLoop
      refine .next fun ch => .next fun _ => ?_
      split
      · infer_instance
      split
      · infer_instance
      refine .next fun next => ?_
      split
      · infer_instance
      split
      all_goals infer_instance

instance : Shifts front SameKind readString readString := by
  unfold readString
  infer_instance

instance (count hashes : Nat) :
    Shifts front Eq (readHashes count hashes) (readHashes count hashes) := by
  induction count generalizing hashes with
  | zero => exact inferInstanceAs (Shifts front Eq (Pure.pure hashes) (Pure.pure hashes))
  | succ count ih =>
      unfold readHashes
      infer_instance

instance (hashes start count : Nat) :
    Shifts front SameKind (rawStringLoop hashes start count)
      (rawStringLoop hashes (front.length + start) count) := by
  have closes : Shifts front Eq
      (Read.get fun s =>
        decide ((s.chars.drop (s.pos + 1)).take hashes = List.replicate hashes '#'))
      (Read.get fun s =>
        decide ((s.chars.drop (s.pos + 1)).take hashes = List.replicate hashes '#')) :=
    .get fun shift => by rw [shift.pos, Nat.add_assoc, shift.drop]
  have closing : Shifts front Eq
      (Read.modify fun s =>
        { s with
          pos := s.pos + 1 + hashes
          column := (s.column.toNat + hashes + 1).toUInt32 })
      (Read.modify fun s =>
        { s with
          pos := s.pos + 1 + hashes
          column := (s.column.toNat + hashes + 1).toUInt32 }) :=
    .modify (fun _ => ⟨rfl, Nat.le_trans (Nat.le_succ _) (Nat.le_add_right _ hashes)⟩)
      fun shift => shift.move (1 + hashes) rfl rfl (Nat.add_assoc ..) (Nat.add_assoc ..)
  induction count with
  | zero => exact inferInstanceAs (Shifts front SameKind (Read.fail _) (Read.fail _))
  | succ count ih =>
      unfold rawStringLoop
      infer_instance

instance : Shifts front SameKind readRawString readRawString := by
  unfold readRawString
  refine .next fun ch => ?_
  dsimp only
  split
  · exact .next fun _ => .next fun count => inferInstance
  · exact .next fun count => inferInstance

instance : Shifts front Eq readCharBody readCharBody := by
  unfold readCharBody
  infer_instance

instance : Shifts front SameKind readChar readChar := by
  unfold readChar
  infer_instance

instance : Shifts front Eq readByteBody readByteBody := by
  unfold readByteBody
  infer_instance

instance : Shifts front SameKind readByteLiteral readByteLiteral := by
  unfold readByteLiteral
  infer_instance

instance (count : Nat) : Shifts front Eq (Read.modify (bumps count)) (Read.modify (bumps count)) :=
  .modify (fun s => by rw [bumps_eq]; exact ⟨rfl, Nat.le_add_right _ _⟩) fun shift => by
    rw [bumps_eq, bumps_eq]
    exact shift.move count rfl rfl rfl rfl

theorem Shift.intSuffix_eq {s s' : Lexer} (shift : Shift front s s') :
    intSuffix s' = intSuffix s := by
  simp only [intSuffix, Lexer.peek, Lexer.peekNext, shift.ahead]

/-- The state in which a suffix is looked for. -/
def Lexer.pastUnderscore (s : Lexer) : Lexer :=
  if s.peek = '_' then s.bump else s

theorem readIntSuffix_eq (s : Lexer) :
    readIntSuffix s = (.ok none, match intSuffix s.pastUnderscore with
      | some (_, length) => { bumps length s.pastUnderscore with pos := s.pos }
      | none => s.pastUnderscore) := by
  rw [readIntSuffix, bind_get, bind_peek, Lexer.pastUnderscore]
  by_cases digits : s.peek = '_'
  · simp only [if_pos digits, bind_bump, bind_get]
    split <;> simp_all
  · simp only [if_neg digits, bind_get]
    split <;> simp_all

/-- A suffix is put back to where it was looked for. -/
instance : Shifts front Eq readIntSuffix readIntSuffix where
  run {s s'} shift := by
    have past : Shift front s.pastUnderscore s'.pastUnderscore := by
      rw [Lexer.pastUnderscore, Lexer.pastUnderscore, Lexer.peek, Lexer.peek, shift.ahead 0]
      split
      · exact shift.bump
      · exact shift
    rw [readIntSuffix_eq, readIntSuffix_eq, past.intSuffix_eq]
    refine ⟨.ok rfl, ?_⟩
    dsimp only
    split
    · rw [bumps_eq, bumps_eq]
      exact ⟨past.chars, shift.pos, shift.noPoint⟩
    · exact past
  before s := by
    have past : s.Before s.pastUnderscore := by
      rw [Lexer.pastUnderscore]
      split
      · exact ⟨rfl, Nat.le_succ s.pos⟩
      · exact .refl s
    rw [readIntSuffix_eq]
    dsimp only
    split
    · rw [bumps_eq]
      exact ⟨past.chars, Nat.le_refl _⟩
    · exact past

instance : Shifts front Eq readFloatSuffix readFloatSuffix := by
  unfold readFloatSuffix
  refine .next fun ch => ?_
  dsimp only
  split <;> infer_instance

instance (base : Nat) (digit : Char → Bool) (name : String) (start : Nat) :
    Shifts front SameKind (readRadixInt base digit name start)
      (readRadixInt base digit name (front.length + start)) := by
  unfold readRadixInt
  infer_instance

instance : Shifts front Eq readExponent readExponent := by
  unfold readExponent
  infer_instance

instance (start : Nat) :
    Shifts front SameKind (readFloat start) (readFloat (front.length + start)) := by
  unfold readFloat
  refine .next fun _ => .next fun _ => .next fun _ => ?_
  exact @Shifts.bind_pos _ _ _ _ _ fun finish => inferInstance

instance (start : Nat) :
    Shifts front SameKind (readInteger start) (readInteger (front.length + start)) := by
  unfold readInteger
  refine @Shifts.bind_pos _ _ _ _ _ fun finish => ?_
  refine .next fun suffix => .next fun _ => .next fun _ => ?_
  split <;> infer_instance

theorem Shift.precededByDot {s s' : Lexer} (shift : Shift front s s') (start : Nat) :
    (decide (0 < front.length + start) && s'.chars[front.length + start - 1]? == some '.') =
      (decide (0 < start) && s.chars[start - 1]? == some '.') := by
  rw [shift.chars]
  cases start with
  | zero =>
      -- The number is the first token: the front does not end with a point.
      have before : (front ++ s.chars)[front.length - 1]? = front.getLast? ∨ front = [] := by
        cases empty : front with
        | nil => exact .inr rfl
        | cons c cs =>
            left
            rw [List.getElem?_append_left (by simp), List.getLast?_eq_getElem?]
      rcases before with before | rfl
      · rw [Nat.add_zero, before, beq_false_of_ne shift.noPoint, Bool.and_false]
        rfl
      · rfl
  | succ start =>
      rw [Nat.add_sub_assoc (Nat.succ_pos _), List.getElem?_append_right (Nat.le_add_right _ _),
        Nat.add_sub_cancel_left, decide_eq_true (Nat.succ_pos start),
        decide_eq_true (Nat.add_pos_right _ (Nat.succ_pos start))]

instance (start : Nat) :
    Shifts front SameKind (readDecimal start) (readDecimal (front.length + start)) := by
  have point : Shifts front Eq
      (Read.get fun s => decide (0 < start) && s.chars[start - 1]? == some '.')
      (Read.get fun s =>
        decide (0 < front.length + start) && s.chars[front.length + start - 1]? == some '.') :=
    .get fun shift => shift.precededByDot start
  unfold readDecimal
  infer_instance

instance : Shifts front SameKind readNumber readNumber := by
  unfold readNumber Lexer.readHexInt readOctalInt readBinaryInt
  refine @Shifts.bind_pos _ _ _ _ _ fun start => ?_
  infer_instance

instance (kind : TokenKind) : Shifts front SameKind (single kind) (single kind) := by
  unfold single
  infer_instance

instance (second : Char) (longer shorter : TokenKind) :
    Shifts front SameKind (pair second longer shorter) (pair second longer shorter) := by
  unfold pair
  infer_instance

theorem shifts_choice {next : Char → Read Token}
    (decides : ∀ c, Shifts front SameKind (next c) (next c)) :
    Shifts front SameKind (bump >>= fun _ => peek >>= next) (bump >>= fun _ => peek >>= next) :=
  inferInstance

theorem shifts_symbolReader {c : Char} {reader : Read Token}
    (found : symbolReader c = some reader) : Shifts front SameKind reader reader := by
  unfold symbolReader at found
  split at found
  case h_26 => cases found
  all_goals
    cases found
    first
      | infer_instance
      | exact inferInstanceAs (Shifts front SameKind (pair _ _ _) (pair _ _ _))
      | -- The reader decides by the second character.
        refine shifts_choice fun c => ?_
        split
        all_goals first
          | infer_instance
          | (refine shifts_choice fun c => ?_; split <;> infer_instance)

instance (ch next : Char) : Shifts front SameKind (readToken ch next) (readToken ch next) := by
  have unexpected : ∀ c : Char, Shifts front SameKind
      (fun s : Lexer => ((.error ⟨s.mkSpan, "unexpected character: " ++ c.toString⟩, s.bump) :
        Except Error Token × Lexer))
      (fun s : Lexer => ((.error ⟨s.mkSpan, "unexpected character: " ++ c.toString⟩, s.bump) :
        Except Error Token × Lexer)) :=
    fun c => ⟨fun shift => ⟨.error rfl, shift.bump⟩, fun s => ⟨rfl, Nat.le_succ s.pos⟩⟩
  have symbol : Shifts front SameKind
      (match symbolReader ch with
      | some reader => reader
      | none => fun s => (.error ⟨s.mkSpan, "unexpected character: " ++ ch.toString⟩, s.bump))
      (match symbolReader ch with
      | some reader => reader
      | none => fun s => (.error ⟨s.mkSpan, "unexpected character: " ++ ch.toString⟩, s.bump)) := by
    split
    · exact shifts_symbolReader ‹_›
    · exact unexpected ch
  unfold readToken
  infer_instance

/-- The next token does not depend on the text in front of it. -/
instance : Shifts front SameKind nextToken nextToken := by
  have begun : Shifts front Eq (Read.modify Lexer.begin) (Read.modify Lexer.begin) :=
    .modify (fun _ => ⟨rfl, Nat.le_refl _⟩) fun shift => shift.move 0 rfl rfl rfl rfl
  have finished : Shifts front SameKind (Read.get fun s => ⟨.eof, s.mkPos, s.mkPos⟩)
      (Read.get fun s => ⟨.eof, s.mkPos, s.mkPos⟩) :=
    ⟨fun shift => ⟨.ok rfl, shift⟩, .refl⟩
  change Shifts front SameKind (Read.modify Lexer.begin >>= _) (Read.modify Lexer.begin >>= _)
  infer_instance

end Instances

/-- What a run of the lexer finds, without the places. -/
def content (found : List Token × List Error) : List TokenKind × List String :=
  (found.1.map (·.kind), found.2.map (·.message))

/-- What a text is lexed to: the kinds of its tokens, or the messages of its
errors. -/
def lexed (text : List Char) : Option (Except (List String) (List TokenKind)) :=
  (tokenize (String.ofList text)).map fun
    | .ok tokens => .ok (tokens.map (·.kind))
    | .error errors => .error (errors.map (·.message))

theorem lexed_eq (text : List Char) :
    lexed text =
      ((tokenizeLoop (text.length + 1) (Lexer.new (String.ofList text))).map content).map
        fun (kinds, messages) => if messages.isEmpty then .ok kinds else .error messages := by
  rw [lexed, tokenize, String.toList_ofList, Option.map_map, Option.map_map]
  refine congrArg (Option.map · _) (funext fun found => ?_)
  rcases found with ⟨tokens, _ | ⟨e, errors⟩⟩ <;> rfl

theorem tokenizeLoop_more {count more : Nat} {s : Lexer} {found : List Token × List Error}
    (run : tokenizeLoop count s = some found) (less : count ≤ more) :
    tokenizeLoop more s = some found := by
  induction count generalizing more s found with
  | zero => cases run
  | succ count ih =>
      cases more with
      | zero => cases less
      | succ more =>
          have fewer := Nat.le_of_succ_le_succ less
          rw [tokenizeLoop] at run ⊢
          split at run
          · next read =>
              rcases Option.map_eq_some_iff.mp run with ⟨rest, loop, same⟩
              rw [ih loop fewer, ← same]
              rfl
          · split at run
            · next ended => rw [if_pos ended, ← run]
            · next inside =>
                rcases Option.map_eq_some_iff.mp run with ⟨rest, loop, same⟩
                rw [if_neg inside, ih loop fewer, ← same]
                rfl

theorem map_content_error (e : Error) (found : Option (List Token × List Error)) :
    (found.map fun (tokens, errors) => (tokens, e :: errors)).map content =
      (found.map content).map fun (kinds, messages) => (kinds, e.message :: messages) := by
  cases found <;> rfl

theorem map_content_token (token : Token) (found : Option (List Token × List Error)) :
    (found.map fun (tokens, errors) =>
        (if token.kind.isTrivia then tokens else token :: tokens, errors)).map content =
      (found.map content).map fun (kinds, messages) =>
        (if token.kind.isTrivia then kinds else token.kind :: kinds, messages) := by
  cases found with
  | none => rfl
  | some found =>
      simp only [Option.map_some, content]
      split <;> rfl

theorem Shift.tokenizeLoop {front : List Char} {s s' : Lexer} (shift : Shift front s s')
    (count : Nat) :
    (tokenizeLoop count s').map content = (Lexer.tokenizeLoop count s).map content := by
  induction count generalizing s s' with
  | zero => rfl
  | succ count ih =>
      have read := (inferInstance : Shifts front SameKind nextToken nextToken).run shift
      rw [Tinox.Lexer.tokenizeLoop, Tinox.Lexer.tokenizeLoop]
      generalize nextToken s = outcome at read
      generalize nextToken s' = outcome' at read
      rcases outcome with ⟨result, t⟩
      rcases outcome' with ⟨result', t'⟩
      cases read.1 with
      | error messages =>
          have skip : Shift front { t with pos := t.pos + 1 } { t' with pos := t'.pos + 1 } :=
            read.2.move 1 rfl rfl rfl rfl
          rw [map_content_error, map_content_error, ih skip, messages]
      | @ok token token' kinds =>
          dsimp only
          rw [kinds]
          split
          · rw [Option.map_some, Option.map_some, content, content, List.map_singleton,
              List.map_singleton, kinds]
          · rw [← kinds, map_content_token, kinds, map_content_token, ih read.2]

end Tinox.Lexer
