import Tinox.Syntax.Token

/-!
# Lexer states and primitive operations

The lexer walks over the characters of a source text with three counters that
its readers update by hand: the position, the line and the column.  Line,
column and the offsets of spans are 32-bit numbers that wrap around, as in a
release build; the position itself is not bounded.

A reader yields a result or an error, and a new state in both cases.
-/

namespace Tinox.Lexer

open Tinox.Syntax

/-- A place in a source text (`Pos`). -/
structure Pos where
  offset : UInt32
  line : UInt32
  column : UInt32
  deriving DecidableEq, Repr

/-- A stretch of a source text (`Span`). -/
structure Span where
  start : Pos
  finish : Pos
  deriving DecidableEq, Repr

/-- A token with its place. -/
structure Token where
  kind : TokenKind
  span : Span
  deriving DecidableEq, Repr

/-- A lexical error. -/
structure Error where
  span : Span
  message : String
  deriving DecidableEq, Repr

/-- The state of a `Lexer`. -/
structure Lexer where
  chars : List Char
  pos : Nat
  start : Nat
  line : UInt32
  column : UInt32
  startColumn : UInt32
  deriving DecidableEq, Repr

namespace Lexer

/-- `new`. -/
def new (input : String) : Lexer where
  chars := input.toList
  pos := 0
  start := 0
  line := 1
  column := 1
  startColumn := 1

/-- The character `distance` places ahead, or NUL behind the text. -/
def ahead (s : Lexer) (distance : Nat) : Char :=
  (s.chars[s.pos + distance]?).getD '\x00'

/-- `peek`. -/
def peek (s : Lexer) : Char :=
  s.ahead 0

/-- `peek_next`. -/
def peekNext (s : Lexer) : Char :=
  s.ahead 1

/-- `bump`. -/
def bump (s : Lexer) : Lexer :=
  { s with pos := s.pos + 1, column := s.column + 1 }

/-- `mk_pos`. -/
def mkPos (s : Lexer) : Pos where
  offset := s.pos.toUInt32
  line := s.line
  column := s.startColumn

/-- `mk_span`. -/
def mkSpan (s : Lexer) : Span where
  start := ⟨s.start.toUInt32, s.line, s.startColumn⟩
  finish := ⟨s.pos.toUInt32, s.line, s.column⟩

/-- The characters `chars[start..end]`. -/
def slice (s : Lexer) (first last : Nat) : List Char :=
  (s.chars.drop first).take (last - first)

/-- Line and column behind a line break that has just been passed. -/
def newline (s : Lexer) : Lexer :=
  { s with line := s.line + 1, column := 1 }

end Lexer

/-- Reading functions: `fn(&mut self) -> Result<α, Error>`. -/
def Read (α : Type) : Type :=
  Lexer → Except Error α × Lexer

namespace Read

variable {α β : Type}

instance : Monad Read where
  pure a := fun s => (.ok a, s)
  bind p f := fun s =>
    match p s with
    | (.error e, s') => (.error e, s')
    | (.ok a, s') => f a s'

/-- Read something off the state. -/
def get (f : Lexer → α) : Read α :=
  fun s => (.ok (f s), s)

/-- Change the state. -/
def modify (f : Lexer → Lexer) : Read Unit :=
  fun s => (.ok (), f s)

/-- `Err(Error::new(self.mk_span(), message))`. -/
def fail (message : String) : Read α :=
  fun s => (.error ⟨s.mkSpan, message⟩, s)

/-- `Ok(Token::new(kind, self.mk_span()))`. -/
def token (kind : TokenKind) : Read Token :=
  fun s => (.ok ⟨kind, s.mkSpan⟩, s)

/-- `value.ok_or_else(|| Error::new(self.mk_span(), message))`. -/
def require (message : String) : Option α → Read α
  | some a => pure a
  | none => fail message

end Read

open Read

/-- `peek`. -/
def peek : Read Char :=
  get fun s => s.peek

/-- `peek_next`. -/
def peekNext : Read Char :=
  get fun s => s.peekNext

/-- `bump`. -/
def bump : Read Unit :=
  modify fun s => s.bump

/-- `self.pos >= self.chars.len()`. -/
def atEnd : Read Bool :=
  get fun s => s.chars.length ≤ s.pos

/-- `while test(self) { self.bump(); }`, for at most `count` rounds. -/
def bumpWhile (test : Lexer → Bool) : Nat → Lexer → Lexer
  | 0, s => s
  | count + 1, s => if test s then bumpWhile test count s.bump else s

/-- Skip characters while the current one passes a test that the end of the
text fails. -/
def skipWhile (test : Char → Bool) : Read Unit :=
  modify fun s => bumpWhile (fun s => test s.peek) (s.chars.length - s.pos) s

end Tinox.Lexer
