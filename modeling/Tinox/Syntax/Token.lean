import Mathlib.Algebra.Group.Int.Defs
import Mathlib.Algebra.Group.Nat.Defs

/-!
# Lexical tokens

The token alphabet that the lexer hands to the parser.  Spans are dropped: no
result of the parser depends on them.  A floating-point payload is kept as its
bit pattern, since the front end stores it and never computes with it.
-/

namespace Tinox.Syntax

/-- Reserved words (`Keyword`). -/
inductive Keyword where
  | If | Else | While | For | Loop | Return | Break | Continue | Match | Case
  | Class | Interface | Extends | Implements | Trait | Enum | New | This | Super
  | Self_ | SelfType
  | Public | Private | Protected | Package | Static | Final | Abstract | Override
  | Readonly
  | Var | Val | Let | Const | Mut
  | Fn | Fnc | Throws | Throw | Try | Catch | Finally | Defer
  | Spawn | Channel | Send | Recv | Select | Default | Async | Await
  | Module | Namespace | Import | Export | As | In | Where | Extern | Unsafe
  | Ref | SizeOf | TypeOf | Is | As_ | Cast | Null | True | False
  | Nothing | Never | Any | DotSelf | Immutable
  deriving DecidableEq, Repr

/-- A part of an interpolated string: literal text, or the source text of an
expression. -/
inductive InterpPart where
  | str (text : String)
  | expr (source : String)
  deriving DecidableEq, Repr

/-- Suffixes of integer literals. -/
inductive IntSuffix where
  | unsigned8 | unsigned16 | unsigned32 | unsigned64
  | signed8 | signed16 | signed32 | signed64
  | size | usize
  deriving DecidableEq, Repr

/-- Suffixes of floating-point literals. -/
inductive FloatType where
  | float32 | float64
  deriving DecidableEq, Repr

/-- Token kinds (`TokenKind`). -/
inductive TokenKind where
  | integer (value : Int)
  | integerSuffix (suffix : IntSuffix)
  | float (bits : UInt64)
  | floatSuffix (suffix : FloatType)
  | string (value : String)
  | rawString (value : String)
  | interpString (parts : List InterpPart)
  | char (value : Char)
  | byte (value : UInt8)
  | bool (value : Bool)
  | ident (name : String)
  | keyword (keyword : Keyword)
  | plus | minus | star | slash | percent
  | equals | equalsEquals | bang | bangEquals
  | less | lessEquals | greater | greaterEquals
  | ampAmp | barBar | caret | tilde | ampersand | bar
  | lessLess | greaterGreater | greaterGreaterGreater
  | plusPlus | minusMinus
  | plusEquals | minusEquals | starEquals | slashEquals | percentEquals
  | ampersandEquals | barEquals | caretEquals
  | lessLessEquals | greaterGreaterEquals | greaterGreaterGreaterEquals
  | dot | dotDot | dotDotDot | colon | colonColon | semicolon | comma | at
  | question | questionQuestion | questionColon | fatArrow | thinArrow | pipe
  | backslash
  | lParen | rParen | lBrace | rBrace | lBracket | rBracket
  | comment (text : String)
  | docComment (text : String)
  | whitespace | newline
  | underscore
  | eof
  | error (text : String)
  deriving DecidableEq, Repr

/-- Tokens that separate others and mean nothing (`is_trivia`). -/
def TokenKind.isTrivia : TokenKind → Bool
  | .whitespace | .newline | .comment _ => true
  | _ => false

end Tinox.Syntax
