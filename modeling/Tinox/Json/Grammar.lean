import Mathlib.Algebra.Group.Int.Defs
import Mathlib.Algebra.Group.Nat.Defs
import Mathlib.Data.List.Basic
import Mathlib.Data.List.Nodup
import Mathlib.Logic.Function.Basic

/-!
# The grammar of JSON

Texts of the grammar as trees, with their bytes and the values that they denote.
All numbers are integers of 64 bits, and no escaped character is NUL or half of a
surrogate pair.
-/

namespace JsonText

/-- The bytes of a text. -/
abbrev Bytes := List UInt8

/-- White space. -/
inductive Space where
  | space
  | tab
  | newline
  | carriageReturn
  deriving DecidableEq, Repr

namespace Space

def byte : Space → UInt8
  | space => ' '.toUInt8
  | tab => '\t'.toUInt8
  | newline => '\n'.toUInt8
  | carriageReturn => '\r'.toUInt8

end Space

/-- The bytes of white space. -/
def spaces (ws : List Space) : Bytes :=
  ws.map Space.byte

/-- A hexadecimal digit in either case. -/
structure HexDigit where
  value : Fin 16
  upper : Bool
  deriving DecidableEq, Repr

namespace HexDigit

def byte (digit : HexDigit) : UInt8 :=
  if digit.value < 10 then '0'.toUInt8 + UInt8.ofNat digit.value
  else (if digit.upper then 'A'.toUInt8 else 'a'.toUInt8) + UInt8.ofNat (digit.value - 10)

end HexDigit

/-- The four digits of a code unit. -/
structure HexCode where
  first : HexDigit
  second : HexDigit
  third : HexDigit
  fourth : HexDigit
  deriving DecidableEq, Repr

namespace HexCode

def bytes (code : HexCode) : Bytes :=
  [code.first.byte, code.second.byte, code.third.byte, code.fourth.byte]

def value (code : HexCode) : Nat :=
  ((code.first.value * 16 + code.second.value) * 16 + code.third.value) * 16 + code.fourth.value

end HexCode

/-- The escapes of one letter. -/
inductive Escape where
  | quote
  | backslash
  | slash
  | backspace
  | formFeed
  | newline
  | carriageReturn
  | tab
  deriving DecidableEq, Repr

namespace Escape

def letter : Escape → Char
  | quote => '"'
  | backslash => '\\'
  | slash => '/'
  | backspace => 'b'
  | formFeed => 'f'
  | newline => 'n'
  | carriageReturn => 'r'
  | tab => 't'

def char : Escape → Char
  | quote => '"'
  | backslash => '\\'
  | slash => '/'
  | backspace => Char.ofNat 0x08
  | formFeed => Char.ofNat 0x0C
  | newline => '\n'
  | carriageReturn => '\r'
  | tab => '\t'

end Escape

/-- A character of a string, as it is written there. -/
inductive Item where
  | plain (char : Char) (isPlain : 0x20 ≤ char.toNat ∧ char ≠ '"' ∧ char ≠ '\\')
  | escape (letter : Escape)
  | unit (code : HexCode) (isChar : code.value ≠ 0 ∧ (code.value < 0xD800 ∨ 0xE000 ≤ code.value))
  | pair (high low : HexCode) (isHigh : 0xD800 ≤ high.value ∧ high.value < 0xDC00)
      (isLow : 0xDC00 ≤ low.value ∧ low.value < 0xE000)

namespace Item

def bytes : Item → Bytes
  | plain char _ => String.utf8EncodeChar char
  | escape letter => ['\\'.toUInt8, letter.letter.toUInt8]
  | unit code _ => '\\'.toUInt8 :: 'u'.toUInt8 :: code.bytes
  | pair high low _ _ =>
      '\\'.toUInt8 :: 'u'.toUInt8 :: high.bytes ++ '\\'.toUInt8 :: 'u'.toUInt8 :: low.bytes

/-- The character that is denoted. -/
def char : Item → Char
  | plain char _ => char
  | escape letter => letter.char
  | unit code _ => Char.ofNat code.value
  | pair high low _ _ =>
      Char.ofNat (0x10000 + (high.value - 0xD800) * 0x400 + (low.value - 0xDC00))

end Item

/-- The bytes between the quotes of a string. -/
def stringBody (items : List Item) : Bytes :=
  items.flatMap Item.bytes

def stringBytes (items : List Item) : Bytes :=
  '"'.toUInt8 :: stringBody items ++ ['"'.toUInt8]

/-- The UTF-8 bytes of the characters that a string denotes. -/
def utf8 (items : List Item) : Bytes :=
  items.flatMap fun item => String.utf8EncodeChar item.char

/-- The number that decimal digits write. -/
def decimal (digits : List (Fin 10)) : Nat :=
  digits.foldl (fun value (digit : Fin 10) => value * 10 + digit.val) 0

/-- An integer without fraction and exponent, within 64 bits. -/
structure Integer where
  minus : Bool
  first : Fin 10
  rest : List (Fin 10)
  noLeadingZero : first = 0 → rest = []
  within : if minus then decimal (first :: rest) ≤ 2 ^ 63 else decimal (first :: rest) < 2 ^ 63

namespace Integer

def digits (number : Integer) : Bytes :=
  (number.first :: number.rest).map fun digit : Fin 10 => '0'.toUInt8 + UInt8.ofNat digit.val

def bytes (number : Integer) : Bytes :=
  if number.minus then '-'.toUInt8 :: number.digits else number.digits

def value (number : Integer) : Int :=
  if number.minus then -(decimal (number.first :: number.rest) : Int)
  else decimal (number.first :: number.rest)

end Integer

mutual

/-- A value; the lists of `Elements` and `Members` are not empty. -/
inductive Tree where
  | null
  | bool (value : Bool)
  | int (number : Integer)
  | string (items : List Item)
  | emptyArray (inner : List Space)
  | array (elements : Elements)
  | emptyObject (inner : List Space)
  | object (members : Members)

inductive Elements where
  | last (before : List Space) (element : Tree) (after : List Space)
  | more (before : List Space) (element : Tree) (after : List Space) (rest : Elements)

inductive Members where
  | last (before : List Space) (name : List Item) (afterName : List Space)
      (beforeValue : List Space) (value : Tree) (after : List Space)
  | more (before : List Space) (name : List Item) (afterName : List Space)
      (beforeValue : List Space) (value : Tree) (after : List Space) (rest : Members)

end

mutual

def Tree.text : Tree → Bytes
  | .null => "null".toList.map Char.toUInt8
  | .bool true => "true".toList.map Char.toUInt8
  | .bool false => "false".toList.map Char.toUInt8
  | .int number => number.bytes
  | .string items => stringBytes items
  | .emptyArray inner => '['.toUInt8 :: spaces inner ++ [']'.toUInt8]
  | .array elements => '['.toUInt8 :: elements.text ++ [']'.toUInt8]
  | .emptyObject inner => '{'.toUInt8 :: spaces inner ++ ['}'.toUInt8]
  | .object members => '{'.toUInt8 :: members.text ++ ['}'.toUInt8]

def Elements.text : Elements → Bytes
  | .last before element after => spaces before ++ element.text ++ spaces after
  | .more before element after rest =>
      spaces before ++ element.text ++ spaces after ++ ','.toUInt8 :: rest.text

def Members.text : Members → Bytes
  | .last before name afterName beforeValue value after =>
      spaces before ++ stringBytes name ++ spaces afterName ++
        ':'.toUInt8 :: spaces beforeValue ++ value.text ++ spaces after
  | .more before name afterName beforeValue value after rest =>
      spaces before ++ stringBytes name ++ spaces afterName ++
        ':'.toUInt8 :: spaces beforeValue ++ value.text ++ spaces after ++ ','.toUInt8 :: rest.text

end

/-- A whole text. -/
structure Document where
  before : List Space
  tree : Tree
  after : List Space

def Document.text (document : Document) : Bytes :=
  spaces document.before ++ document.tree.text ++ spaces document.after

/-- What a text denotes; an object is a finite map. -/
inductive Value where
  | null
  | bool (value : Bool)
  | int (value : Int)
  | string (bytes : Bytes)
  | array (items : List Value)
  | object (members : Bytes → Option Value)

/-- The value of the last entry with this name. -/
def lastValue {κ ν : Type} [DecidableEq κ] (entries : List (κ × ν)) (name : κ) : Option ν :=
  (entries.reverse.find? fun entry => entry.1 = name).map Prod.snd

section Meaning

/- How strings are read. -/
variable (meaning : List Item → Bytes)

mutual

/-- The value of a tree when its strings are read in this way. -/
def Tree.valueBy : Tree → Value
  | .null => .null
  | .bool value => .bool value
  | .int number => .int number.value
  | .string items => .string (meaning items)
  | .emptyArray _ => .array []
  | .array elements => .array elements.valuesBy
  | .emptyObject _ => .object fun _ => none
  | .object members => .object (lastValue members.valuesBy)

def Elements.valuesBy : Elements → List Value
  | .last _ element _ => [element.valueBy]
  | .more _ element _ rest => element.valueBy :: rest.valuesBy

def Members.valuesBy : Members → List (Bytes × Value)
  | .last _ name _ _ value _ => [(meaning name, value.valueBy)]
  | .more _ name _ _ value _ rest => (meaning name, value.valueBy) :: rest.valuesBy

end

end Meaning

/-- The value that a text denotes. -/
def Document.value (document : Document) : Value :=
  document.tree.valueBy utf8

theorem mem_utf8EncodeChar {char : Char} {b : UInt8} (member : b ∈ String.utf8EncodeChar char) :
    b.toNat = char.toNat ∨ 0x80 ≤ b.toNat := by
  have isCode : char.toNat = char.val.toNat := rfl
  rw [String.utf8EncodeChar] at member
  split at member
  · rw [List.mem_singleton] at member
    rw [member, UInt8.toNat_ofNat']
    omega
  · right
    split at member
    · simp only [List.mem_cons, List.not_mem_nil, or_false] at member
      rcases member with rfl | rfl <;> rw [UInt8.toNat_ofNat'] <;> omega
    · split at member
      · simp only [List.mem_cons, List.not_mem_nil, or_false] at member
        rcases member with rfl | rfl | rfl <;> rw [UInt8.toNat_ofNat'] <;> omega
      · simp only [List.mem_cons, List.not_mem_nil, or_false] at member
        rcases member with rfl | rfl | rfl | rfl <;> rw [UInt8.toNat_ofNat'] <;> omega

theorem plain_ne {char : Char} (isPlain : 0x20 ≤ char.toNat ∧ char ≠ '"' ∧ char ≠ '\\') {b : UInt8}
    (member : b ∈ String.utf8EncodeChar char) : b ≠ '"'.toUInt8 ∧ b ≠ '\\'.toUInt8 := by
  have apart : ∀ other : Char, other.toNat < 0x80 → char ≠ other → b ≠ other.toUInt8 := by
    rintro other ascii distinct rfl
    have small : other.toUInt8.toNat = other.toNat := by
      change other.toNat % 256 = other.toNat
      omega
    rcases mem_utf8EncodeChar member with same | large
    · exact distinct (Char.toNat_inj.mp (same.symm.trans small))
    · omega
  exact ⟨apart '"' (by decide) isPlain.2.1, apart '\\' (by decide) isPlain.2.2⟩

theorem HexDigit.byte_ne (digit : HexDigit) :
    digit.byte ≠ '"'.toUInt8 ∧ digit.byte ≠ '\\'.toUInt8 ∧ digit.byte ≠ 0x08 ∧ digit.byte ≠ 0x0C := by
  rcases digit with ⟨value, upper⟩
  revert value upper
  decide

section LastValue

variable {κ ν : Type} [DecidableEq κ]

theorem lastValue_append (entries : List (κ × ν)) (name : κ) (value : ν) :
    lastValue (entries ++ [(name, value)]) = Function.update (lastValue entries) name (some value) := by
  funext other
  rw [lastValue, List.reverse_append, List.reverse_singleton, List.singleton_append, List.find?_cons]
  by_cases same : name = other
  · subst same
    rw [Function.update_self, decide_eq_true rfl]
    rfl
  · rw [Function.update_of_ne (Ne.symm same), decide_eq_false same]
    rfl

theorem lastValue_isSome {entries : List (κ × ν)} {name : κ} :
    (lastValue entries name).isSome = true ↔ name ∈ entries.map Prod.fst := by
  rw [lastValue, Option.isSome_map, List.find?_isSome, List.mem_map]
  constructor
  · rintro ⟨entry, member, same⟩
    exact ⟨entry, List.mem_reverse.mp member, of_decide_eq_true same⟩
  · rintro ⟨entry, member, same⟩
    exact ⟨entry, List.mem_reverse.mpr member, decide_eq_true same⟩

theorem lastValue_of_mem {entries : List (κ × ν)} (distinct : (entries.map Prod.fst).Nodup)
    {name : κ} {value : ν} (member : (name, value) ∈ entries) :
    lastValue entries name = some value := by
  cases found : lastValue entries name with
  | none =>
      have isSome := lastValue_isSome.mpr (List.mem_map_of_mem member)
      rw [found] at isSome
      cases isSome
  | some other =>
      rcases Option.map_eq_some_iff.mp found with ⟨entry, isFound, rfl⟩
      have passes := List.find?_some isFound
      have sameName : entry.1 = name := of_decide_eq_true passes
      have entryMember := List.mem_reverse.mp (List.mem_of_find?_eq_some isFound)
      have same := List.inj_on_of_nodup_map distinct entryMember member sameName
      rw [same]

end LastValue

end JsonText
