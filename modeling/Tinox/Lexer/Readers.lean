import Tinox.Lexer.State

/-!
# The readers of the lexer

One reader for each kind of token, `next_token`, which selects the reader by
the first character, and `tokenize`, which runs it up to the end of the text
and keeps the tokens that mean something.
-/

namespace Tinox.Lexer

open Tinox.Syntax
open Read

/-- `is_ascii_digit`. -/
def isDigit (c : Char) : Bool :=
  '0' ≤ c && c ≤ '9'

/-- `is_ascii_hexdigit`. -/
def isHexDigit (c : Char) : Bool :=
  isDigit c || ('a' ≤ c && c ≤ 'f') || ('A' ≤ c && c ≤ 'F')

/-- `'a'..='z' | 'A'..='Z' | '_'`. -/
def isIdentStart (c : Char) : Bool :=
  ('a' ≤ c && c ≤ 'z') || ('A' ≤ c && c ≤ 'Z') || c == '_'

/-- The characters of identifiers. -/
def isIdentPart (c : Char) : Bool :=
  isIdentStart c || isDigit c

/-- The value of a hexadecimal digit. -/
def hexValue (c : Char) : Nat :=
  if isDigit c then c.toNat - '0'.toNat
  else if 'a' ≤ c && c ≤ 'f' then c.toNat - 'a'.toNat + 10
  else c.toNat - 'A'.toNat + 10

/-- `char::from_u32`. -/
def charFromU32 (code : Nat) : Option Char :=
  if code.isValidChar then some (Char.ofNat code) else none

/-- The number that digits of a base denote. -/
def digitsValue (base : Nat) (digits : List Char) : Nat :=
  digits.foldl (fun value digit => value * base + hexValue digit) 0

/-- `i64::from_str_radix`, on digits of the base. -/
def parseI64 (base : Nat) (digits : List Char) : Option Int :=
  let value := digitsValue base digits
  if digits.isEmpty || 2 ^ 63 ≤ value then none else some value

/-- The quotient of two natural numbers rounded to the nearest one, ties to
even. -/
def roundHalfEven (numerator denominator : Nat) : Nat :=
  let quotient := numerator / denominator
  let rest := numerator % denominator
  if 2 * rest < denominator ∨ 2 * rest = denominator ∧ quotient % 2 = 0 then quotient
  else quotient + 1

/-- The bits of the double nearest to a positive quotient, with those of
infinity for a quotient too large. -/
def doubleBits (numerator denominator : Nat) : Nat :=
  let guess : Int := (Nat.log2 numerator : Int) - Nat.log2 denominator
  let below := numerator * 2 ^ (-guess).toNat < denominator * 2 ^ guess.toNat
  let exponent := max (-1022) (if below then guess - 1 else guess)
  let shift := 52 - exponent
  let mantissa := roundHalfEven (numerator * 2 ^ shift.toNat) (denominator * 2 ^ (-shift).toNat)
  min ((exponent + 1022).toNat * 2 ^ 52 + mantissa) (0x7FF * 2 ^ 52)

/-- `text.parse::<f64>()`, on texts of digits with one decimal point and
perhaps an exponent, as bits. -/
def parseF64 (text : List Char) : Option UInt64 :=
  let whole := text.takeWhile isDigit
  let fraction := ((text.dropWhile isDigit).drop 1).takeWhile isDigit
  let behind := ((text.dropWhile isDigit).drop 1).dropWhile isDigit
  let digits := digitsValue 10 (whole ++ fraction)
  let value (exponent : Int) : UInt64 :=
    let scale := exponent - fraction.length
    if digits = 0 then 0
    else (doubleBits (digits * 10 ^ scale.toNat) (10 ^ (-scale).toNat)).toUInt64
  match behind with
  | [] => some (value 0)
  | _ :: '-' :: power => if power.isEmpty then none else some (value (-(digitsValue 10 power : Int)))
  | _ :: '+' :: power => if power.isEmpty then none else some (value (digitsValue 10 power))
  | _ :: power => if power.isEmpty then none else some (value (digitsValue 10 power))

/-- `is_finite`. -/
def isFinite (bits : UInt64) : Bool :=
  bits.toNat / 2 ^ 52 % 2 ^ 11 < 0x7FF

/-- `Keyword::lookup`. -/
def keywordLookup : String → Option Keyword
  | "if" => some .If
  | "else" => some .Else
  | "while" => some .While
  | "for" => some .For
  | "loop" => some .Loop
  | "return" => some .Return
  | "break" => some .Break
  | "continue" => some .Continue
  | "match" => some .Match
  | "case" => some .Case
  | "class" => some .Class
  | "interface" => some .Interface
  | "extends" => some .Extends
  | "implements" => some .Implements
  | "trait" => some .Trait
  | "enum" => some .Enum
  | "new" => some .New
  | "this" => some .This
  | "super" => some .Super
  | "self" => some .Self_
  | "Self" => some .SelfType
  | "public" => some .Public
  | "private" => some .Private
  | "protected" => some .Protected
  | "package" => some .Package
  | "static" => some .Static
  | "final" => some .Final
  | "abstract" => some .Abstract
  | "override" => some .Override
  | "readonly" => some .Readonly
  | "var" => some .Var
  | "val" => some .Val
  | "let" => some .Let
  | "const" => some .Const
  | "mut" => some .Mut
  | "fn" => some .Fn
  | "fnc" => some .Fnc
  | "throw" => some .Throw
  | "throws" => some .Throws
  | "try" => some .Try
  | "catch" => some .Catch
  | "finally" => some .Finally
  | "defer" => some .Defer
  | "spawn" => some .Spawn
  | "channel" => some .Channel
  | "send" => some .Send
  | "recv" => some .Recv
  | "select" => some .Select
  | "default" => some .Default
  | "async" => some .Async
  | "await" => some .Await
  | "module" => some .Module
  | "namespace" => some .Namespace
  | "import" => some .Import
  | "export" => some .Export
  | "as" => some .As
  | "in" => some .In
  | "where" => some .Where
  | "extern" => some .Extern
  | "unsafe" => some .Unsafe
  | "ref" => some .Ref
  | "sizeof" => some .SizeOf
  | "typeof" => some .TypeOf
  | "is" => some .Is
  | "cast" => some .Cast
  | "null" => some .Null
  | "true" => some .True
  | "false" => some .False
  | "Nothing" => some .Nothing
  | "Never" => some .Never
  | "Any" => some .Any
  | ".self" => some .DotSelf
  | "immutable" => some .Immutable
  | _ => none

/-- `read_operator`. -/
def readOperator : Read Token := do
  bump
  if (← peek) = '=' then
    bump
    token .slashEquals
  else
    token .slash

/-- `read_line_comment`. -/
def readLineComment : Read Token := do
  bump
  bump
  let start ← get (·.pos)
  modify fun s =>
    bumpWhile (fun s => s.pos < s.chars.length && s.peek != '\n') (s.chars.length - s.pos) s
  let text ← get fun s => s.slice start s.pos
  token (.comment (String.ofList text))

/-- The token of a block comment. -/
def blockComment (isDoc : Bool) (text : List Char) : Read Token :=
  if isDoc then token (.docComment (String.ofList text))
  else token (.comment (String.ofList text))

/-- The loop of `read_block_comment`. -/
def blockCommentLoop (isDoc : Bool) (start : Nat) : Nat → Read Token
  | 0 => do blockComment isDoc (← get fun s => s.slice start s.pos)
  | count + 1 => do
      if (← peek) = '*' ∧ (← peekNext) = '/' then
        let text ← get fun s => s.slice start s.pos
        bump
        bump
        blockComment isDoc text
      else
        if (← peek) = '\n' then
          modify fun s => { s with line := s.line + 1, column := 0 }
        bump
        blockCommentLoop isDoc start count

/-- `read_block_comment`. -/
def readBlockComment : Read Token := do
  bump
  bump
  let isDoc := (← peek) = '*'
  if isDoc then
    bump
  let start ← get (·.pos)
  blockCommentLoop isDoc start (← get fun s => s.chars.length - s.pos)

/-- The token of a word. -/
def wordKind (text : String) : TokenKind :=
  if text = "_" then .underscore
  else if text = "true" then .bool true
  else if text = "false" then .bool false
  else
    match keywordLookup text with
    | some keyword => .keyword keyword
    | none => .ident text

/-- `read_ident_or_keyword`. -/
def readIdentOrKeyword : Read Token := do
  let start ← get (·.pos)
  skipWhile isIdentPart
  let text ← get fun s => s.slice start s.pos
  token (wordKind (String.ofList text))

/-- `read_hex_digit`. -/
def readHexDigit : Read Nat := do
  let ch ← peek
  bump
  if isHexDigit ch then pure (hexValue ch)
  else fail ("expected hex digit, found: " ++ ch.toString)

/-- `expect_char`. -/
def expectChar (ch : Char) : Read Unit := do
  if (← peek) = ch then bump
  else fail ("expected '" ++ ch.toString ++ "'")

/-- The digits of `\x75{..}`, six at most. -/
def readBracedDigits : Nat → Nat → Read Nat
  | 0, value => pure value
  | count + 1, value => do
      if (← peek) = '}' then pure value
      else
        let digit ← readHexDigit
        readBracedDigits count (value * 16 + digit)

/-- A fixed number of hexadecimal digits. -/
def readDigits : Nat → Nat → Read Nat
  | 0, value => pure value
  | count + 1, value => do
      let digit ← readHexDigit
      readDigits count (value * 16 + digit)

/-- `read_escape`. -/
def readEscape : Read Char := do
  let ch ← peek
  bump
  match ch with
  | 'n' => pure '\n'
  | 't' => pure '\t'
  | 'r' => pure '\r'
  | '\\' => pure '\\'
  | '"' => pure '"'
  | '\'' => pure '\''
  | '0' => pure '\x00'
  | 'x' => do
      let code ← readDigits 2 0
      require "invalid hex escape" (charFromU32 code)
  | 'u' => do
      expectChar '{'
      let value ← readBracedDigits 6 0
      expectChar '}'
      require "invalid unicode escape" (charFromU32 value)
  | 'U' => do
      let value ← readDigits 8 0
      require "invalid unicode escape" (charFromU32 value)
  | ch => fail ("unknown escape sequence: \\" ++ ch.toString)

/-- The source text of an interpolated expression, up to the brace that closes
it. -/
def readInterpolation : Nat → Nat → String → Read String
  | 0, _, source => pure source
  | count + 1, depth, source => do
      let ch ← peek
      let depth := if ch = '{' then depth + 1 else if ch = '}' then depth - 1 else depth
      bump
      if depth = 0 then pure source
      else readInterpolation count depth (source.push ch)

/-- What `read_string` collects. -/
structure StringParts where
  current : String
  parts : List InterpPart
  hasInterp : Bool

/-- The loop of `read_string`. -/
def readStringLoop : Nat → StringParts → Read StringParts
  | 0, found => pure found
  | count + 1, found => do
      let ch ← peek
      if (← atEnd) ∨ ch = '"' then pure found
      else if ch = '\n' then fail "unterminated string literal"
      else if ch = '$' ∧ (← peekNext) = '{' then
        bump
        bump
        let source ← readInterpolation (← get fun s => s.chars.length - s.pos) 1 ""
        readStringLoop count
          { current := ""
            parts := found.parts ++ [.str found.current, .expr source]
            hasInterp := true }
      else if ch = '\\' then
        bump
        if (← atEnd) then fail "unterminated escape sequence"
        else
          let escaped ← readEscape
          readStringLoop count { found with current := found.current.push escaped }
      else
        bump
        readStringLoop count { found with current := found.current.push ch }

/-- `read_string`. -/
def readString : Read Token := do
  bump
  let found ← readStringLoop (← get fun s => s.chars.length - s.pos) ⟨"", [], false⟩
  if (← atEnd) then fail "unterminated string literal"
  else
    bump
    if found.hasInterp then token (.interpString (found.parts ++ [.str found.current]))
    else token (.string found.current)

/-- Count hash characters. -/
def readHashes : Nat → Nat → Read Nat
  | 0, hashes => pure hashes
  | count + 1, hashes => do
      if (← peek) = '#' then
        bump
        readHashes count (hashes + 1)
      else pure hashes

/-- The loop of `read_raw_string`. -/
def rawStringLoop (hashes start : Nat) : Nat → Read Token
  | 0 => fail "unterminated raw string literal"
  | count + 1 => do
      let ch ← peek
      let closes ← get fun s =>
        decide ((s.chars.drop (s.pos + 1)).take hashes = List.replicate hashes '#')
      if ch = '"' ∧ closes then
        let value ← get fun s => s.slice start s.pos
        modify fun s =>
          { s with
            pos := s.pos + 1 + hashes
            column := (s.column.toNat + hashes + 1).toUInt32 }
        token (.rawString (String.ofList value))
      else
        if ch = '\n' then
          modify fun s => { s with line := s.line + 1, column := 0 }
        bump
        rawStringLoop hashes start count

/-- `read_raw_string`. -/
def readRawString : Read Token := do
  if (← peek) = 'r' then
    bump
  let hashes ← readHashes (← get fun s => s.chars.length - s.pos) 0
  if (← peek) ≠ '"' then fail "expected opening \" for raw string"
  else
    bump
    let start ← get (·.pos)
    rawStringLoop hashes start (← get fun s => s.chars.length - s.pos)

/-- The character of a character literal. -/
def readCharBody : Read Char := do
  if (← peek) = '\\' then
    bump
    readEscape
  else
    let ch ← peek
    if ch = '\'' then fail "empty character literal"
    else
      bump
      pure ch

/-- `read_char`. -/
def readChar : Read Token := do
  bump
  let ch ← readCharBody
  if (← peek) ≠ '\'' then fail "unterminated char literal"
  else
    bump
    token (.char ch)

/-- The byte of a byte literal. -/
def readByteBody : Read UInt8 := do
  if (← peek) = '\\' then
    bump
    let escaped ← readEscape
    pure escaped.toNat.toUInt8
  else
    let ch ← peek
    if ch = '\'' then fail "empty byte literal"
    else if 127 < ch.toNat then fail "byte literal must be in range 0-127"
    else
      bump
      pure ch.toNat.toUInt8

/-- `read_byte_literal`. -/
def readByteLiteral : Read Token := do
  bump
  let ch ← readByteBody
  if (← peek) ≠ '\'' then fail "unterminated byte literal"
  else
    bump
    token (.byte ch)

/-- A digit of a number, or an underscore between digits. -/
def isDigitPart (c : Char) : Bool :=
  isDigit c || c == '_'

/-- The suffix at the current position, with its length. -/
def intSuffix (s : Lexer) : Option (IntSuffix × Nat) :=
  match s.peek, s.peekNext with
  | 'u', '8' => some (.unsigned8, 2)
  | 'u', '1' => if s.ahead 2 = '6' then some (.unsigned16, 3) else none
  | 'u', '3' => if s.ahead 2 = '2' then some (.unsigned32, 3) else none
  | 'u', '6' => if s.ahead 2 = '4' then some (.unsigned64, 3) else none
  | 'i', '8' => some (.signed8, 2)
  | 'i', '1' => if s.ahead 2 = '6' then some (.signed16, 3) else none
  | 'i', '3' => if s.ahead 2 = '2' then some (.signed32, 3) else none
  | 'i', '6' => if s.ahead 2 = '4' then some (.signed64, 3) else none
  | 'u', 's' => if s.ahead 2 = 'i' ∧ s.ahead 3 = 'z' then some (.usize, 4) else none
  | 'i', 's' => if s.ahead 2 = 'i' ∧ s.ahead 3 = 'z' then some (.size, 4) else none
  | _, _ => none

/-- Several steps of `bump`. -/
def bumps : Nat → Lexer → Lexer
  | 0, s => s
  | count + 1, s => bumps count s.bump

/-- `read_int_suffix`: the suffix is read, and then the position is set back. -/
def readIntSuffix : Read (Option IntSuffix) := do
  let start ← get (·.pos)
  if (← peek) = '_' then
    bump
  match ← get intSuffix with
  | some (_, length) => do
      modify (bumps length)
      modify fun s => { s with pos := start }
      pure none
  | none => pure none

/-- `read_float_suffix`. -/
def readFloatSuffix : Read FloatType := do
  if (← peek) = '_' then
    bump
  if (← peek) = 'f' ∧ (← peekNext) = '3' ∧ (← get fun s => s.ahead 2) = '2' then
    modify (bumps 3)
    pure .float32
  else if (← peek) = 'f' ∧ (← peekNext) = '6' ∧ (← get fun s => s.ahead 2) = '4' then
    modify (bumps 3)
    pure .float64
  else pure .float64

/-- The characters of a literal without underscores. -/
def literalText (start finish : Nat) : Read (List Char) :=
  get fun s => (s.slice start finish).filter (· != '_')

/-- `read_hex_int`, `read_octal_int` and `read_binary_int`: a prefix of two
characters, digits, and their value. -/
def readRadixInt (base : Nat) (digit : Char → Bool) (name : String) (start : Nat) :
    Read Token := do
  bump
  bump
  skipWhile fun c => digit c || c == '_'
  let text ← literalText start (← get (·.pos))
  let value ← require ("invalid or out-of-range " ++ name ++ " integer literal: " ++
    String.ofList text) (parseI64 base (text.drop 2))
  token (.integer value)

/-- `read_hex_int`. -/
def readHexInt : Nat → Read Token :=
  readRadixInt 16 isHexDigit "hex"

/-- `read_octal_int`. -/
def readOctalInt : Nat → Read Token :=
  readRadixInt 8 (fun c => isDigit c && c != '8' && c != '9') "octal"

/-- `read_binary_int`. -/
def readBinaryInt : Nat → Read Token :=
  readRadixInt 2 (fun c => c == '0' || c == '1') "binary"

/-- The exponent of a float. -/
def readExponent : Read Unit := do
  if (← peek) = 'e' ∨ (← peek) = 'E' then
    bump
    if (← peek) = '+' ∨ (← peek) = '-' then
      bump
    skipWhile isDigitPart

/-- The part of a float from its point on. -/
def readFloat (start : Nat) : Read Token := do
  bump
  skipWhile isDigitPart
  readExponent
  let numEnd ← get (·.pos)
  let _ ← readFloatSuffix
  let text ← literalText start numEnd
  let value ← require ("invalid float literal: " ++ String.ofList text) (parseF64 text)
  if isFinite value then token (.float value)
  else fail ("float literal out of range for Float64: " ++ String.ofList text)

/-- An integer behind its digits. -/
def readInteger (start : Nat) : Read Token := do
  let numEnd ← get (·.pos)
  let suffix ← readIntSuffix
  let text ← literalText start numEnd
  let value ← require ("integer literal out of range for Int64: " ++ String.ofList text)
    (parseI64 10 text)
  match suffix with
  | some s => token (.integerSuffix s)
  | none => token (.integer value)

/-- A number that does not start with `0x`, `0o` or `0b`. -/
def readDecimal (start : Nat) : Read Token := do
  skipWhile isDigitPart
  let precededByDot ← get fun s => decide (0 < start) && s.chars[start - 1]? == some '.'
  if !precededByDot ∧ (← peek) = '.' ∧ isDigitPart (← peekNext) then readFloat start
  else readInteger start

/-- `read_number`. -/
def readNumber : Read Token := do
  let start ← get (·.pos)
  let next ← peekNext
  if (← peek) = '0' then
    if next = 'x' ∨ next = 'X' then readHexInt start
    else if next = 'o' ∨ next = 'O' then readOctalInt start
    else if next = 'b' ∨ next = 'B' then readBinaryInt start
    else if isDigit next ∨ next = '.' ∨ next = '_' then readDecimal start
    else
      bump
      token (.integer 0)
  else readDecimal start

/-- Consume a character and make a token. -/
def single (kind : TokenKind) : Read Token := do
  bump
  token kind

/-- Consume a character and make one token if the next one is `second`, which
is consumed too, and another one if it is not. -/
def pair (second : Char) (longer shorter : TokenKind) : Read Token := do
  bump
  if (← peek) = second then single longer
  else token shorter

/-- `read_plus`. -/
def readPlus : Read Token := do
  bump
  match ← peek with
  | '+' => single .plusPlus
  | '=' => single .plusEquals
  | _ => token .plus

/-- `read_minus`. -/
def readMinus : Read Token := do
  bump
  match ← peek with
  | '-' => single .minusMinus
  | '=' => single .minusEquals
  | '>' => single .thinArrow
  | _ => token .minus

/-- `read_star`. -/
def readStar : Read Token :=
  pair '=' .starEquals .star

/-- `read_percent`. -/
def readPercent : Read Token :=
  pair '=' .percentEquals .percent

/-- `read_equals`. -/
def readEquals : Read Token := do
  bump
  match ← peek with
  | '=' => single .equalsEquals
  | '>' => single .fatArrow
  | _ => token .equals

/-- `read_bang`. -/
def readBang : Read Token := do
  bump
  match ← peek with
  | '=' => single .bangEquals
  | '?' => single .questionQuestion
  | _ => token .bang

/-- `read_less`. -/
def readLess : Read Token := do
  bump
  match ← peek with
  | '=' => single .lessEquals
  | '<' => pair '=' .lessLessEquals .lessLess
  | _ => token .less

/-- `read_greater`. -/
def readGreater : Read Token := do
  bump
  match ← peek with
  | '=' => single .greaterEquals
  | '>' => do
      bump
      match ← peek with
      | '>' => pair '=' .greaterGreaterGreaterEquals .greaterGreaterGreater
      | '=' => single .greaterGreaterEquals
      | _ => token .greaterGreater
  | _ => token .greater

/-- `read_ampersand`. -/
def readAmpersand : Read Token := do
  bump
  match ← peek with
  | '&' => single .ampAmp
  | '=' => single .ampersandEquals
  | _ => token .ampersand

/-- `read_bar`. -/
def readBar : Read Token := do
  bump
  match ← peek with
  | '|' => single .barBar
  | '=' => single .barEquals
  | _ => token .bar

/-- `read_caret`. -/
def readCaret : Read Token :=
  pair '=' .caretEquals .caret

/-- `read_dot`. -/
def readDot : Read Token := do
  bump
  match ← peek with
  | '.' => pair '.' .dotDotDot .dotDot
  | _ => token .dot

/-- `read_colon`. -/
def readColon : Read Token := do
  bump
  match ← peek with
  | ':' => single .colonColon
  | '=' => single .fatArrow
  | _ => token .colon

/-- `read_question`. -/
def readQuestion : Read Token := do
  bump
  match ← peek with
  | '?' => single .questionQuestion
  | ':' => single .questionColon
  | _ => token .question

/-- The reader for operators and punctuation, by their first character. -/
def symbolReader : Char → Option (Read Token)
  | '+' => some readPlus
  | '-' => some readMinus
  | '*' => some readStar
  | '%' => some readPercent
  | '=' => some readEquals
  | '!' => some readBang
  | '<' => some readLess
  | '>' => some readGreater
  | '&' => some readAmpersand
  | '|' => some readBar
  | '^' => some readCaret
  | '~' => some (single .tilde)
  | '\\' => some (single .backslash)
  | '.' => some readDot
  | ':' => some readColon
  | ';' => some (single .semicolon)
  | ',' => some (single .comma)
  | '@' => some (single .at)
  | '?' => some readQuestion
  | '(' => some (single .lParen)
  | ')' => some (single .rParen)
  | '{' => some (single .lBrace)
  | '}' => some (single .rBrace)
  | '[' => some (single .lBracket)
  | ']' => some (single .rBracket)
  | _ => none

/-- The match of `next_token` on the first character. -/
def readToken (ch next : Char) : Read Token :=
  if ch = '\n' then do
    bump
    modify fun s => s.newline
    token .newline
  else if ch = ' ' ∨ ch = '\t' ∨ ch = '\r' then single .whitespace
  else if ch = '/' then
    if next = '/' then readLineComment
    else if next = '*' then readBlockComment
    else readOperator
  else if ch = '"' then readString
  else if ch = 'r' then do
    if next = '"' ∨ next = '#' ∧ (← get fun s => s.ahead 2) = '"' then readRawString
    else readIdentOrKeyword
  else if ch = '\'' then readChar
  else if isDigit ch then readNumber
  else if isIdentStart ch then
    if ch = 'b' ∧ next = '\'' then do
      bump
      readByteLiteral
    else readIdentOrKeyword
  else
    match symbolReader ch with
    | some reader => reader
    | none => fun s => (.error ⟨s.mkSpan, "unexpected character: " ++ ch.toString⟩, s.bump)

/-- `next_token`. -/
def nextToken : Read Token := do
  modify fun s => { s with start := s.pos, startColumn := s.column }
  if ← atEnd then
    get fun s => ⟨.eof, s.mkPos, s.mkPos⟩
  else
    readToken (← peek) (← peekNext)

/-- The loop of `tokenize`: the tokens that it keeps and the errors. -/
def tokenizeLoop : Nat → Lexer → Option (List Token × List Error)
  | 0, _ => none
  | count + 1, s =>
      match nextToken s with
      | (.error e, s') =>
          -- The character the error stands at is skipped.
          (tokenizeLoop count { s' with pos := s'.pos + 1 }).map fun (tokens, errors) =>
            (tokens, e :: errors)
      | (.ok t, s') =>
          if t.kind = .eof then some ([t], [])
          else
            (tokenizeLoop count s').map fun (tokens, errors) =>
              (if t.kind.isTrivia then tokens else t :: tokens, errors)

/-- `tokenize`: the tokens, or the errors if there are any. -/
def tokenize (input : String) : Option (Except (List Error) (List Token)) :=
  (tokenizeLoop (input.toList.length + 1) (Lexer.new input)).map fun (tokens, errors) =>
    if errors.isEmpty then .ok tokens else .error errors

/-- The tokens of a text. -/
def tokenKinds (text : String) : Option (List TokenKind) :=
  match tokenize text with
  | some (.ok tokens) => some (tokens.map fun token => token.kind)
  | _ => none

end Tinox.Lexer
