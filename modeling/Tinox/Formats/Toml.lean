import Tinox.Data.Entries
import Tinox.Data.LineEnds
import Tinox.Data.Stripping
import Tinox.Runtime.Numerals

/-!
# TOML documents

`TomlParser.parse` goes through the lines of a document.  It stores every key in the outermost
table, whatever header is in front of it, and takes what is behind `=` for the value, with a
comment if there is one.
-/

namespace Tinox.Formats.Toml

open Tinox.Runtime Entries

/-- `TomlValue` with the field that its kind selects; a float is the bits of its `double`. -/
inductive TomlValue where
  | string (value : CString)
  | int (value : Int64)
  | float (bits : UInt64)
  | bool (value : Bool)
  | table (entries : List (CString × TomlValue))

def isBlank (b : UInt8) : Bool :=
  b == 32 || b == 9 || b == 10 || b == 13

/-- `tinox_string_trim`. -/
def tinoxStringTrim (s : CString) : CString :=
  (s.dropWhile isBlank).rdropWhile isBlank

/-- `tinox_string_index_of` for one byte. -/
def indexOf (s : CString) (b : UInt8) : Option Nat :=
  if b ∈ s then some (s.takeWhile (· != b)).length else none

section Parser

-- `tinox_string_to_float`, which is `strtod`
variable (toFloat : CString → UInt64)

/-- `TomlParser::parseValue`. -/
def parseValue (value : CString) : TomlValue :=
  if (literal "\"").isPrefixOf value then .string (value.filter (· != 34))
  else if value = literal "true" then .bool true
  else if value = literal "false" then .bool false
  else if 46 ∈ value then .float (toFloat value)
  else .int (tinoxStringToInt value)

/-- What a line stores. -/
def parseLine (line : CString) : Option (CString × TomlValue) :=
  let line := tinoxStringTrim line
  if line = [] ∨ (literal "#").isPrefixOf line then none
  else if (literal "[").isPrefixOf line then
    (indexOf line 93).map fun endSection => ((line.take endSection).drop 1, .table [])
  else
    (indexOf line 61).map fun eqPos =>
      (tinoxStringTrim (line.take eqPos), parseValue toFloat (tinoxStringTrim (line.drop (eqPos + 1))))

/-- The entries of the outermost table in `TomlParser::parse`. -/
def parseEntries (content : CString) : List (CString × TomlValue) :=
  (content.splitOn 10).foldl (fun root line =>
    match parseLine toFloat line with
    | none => root
    | some entry => put root entry.1 entry.2) []

/-- `TomlParser::parse`. -/
def parse (content : CString) : TomlValue :=
  .table (parseEntries toFloat content)

end Parser

/-! ## Documents -/

inductive Sign where
  | none
  | plus
  | minus
  deriving DecidableEq

def Sign.text : Sign → CString
  | .none => []
  | .plus => [43]
  | .minus => [45]

/-- Integers with a base other than ten. -/
inductive Base where
  | hexadecimal
  | octal
  | binary
  deriving DecidableEq

def Base.marker : Base → UInt8
  | .hexadecimal => 120
  | .octal => 111
  | .binary => 98

def Base.size : Base → Nat
  | .hexadecimal => 16
  | .octal => 8
  | .binary => 2

/-- A digit of the base. -/
def Base.IsDigit : Base → UInt8 → Prop
  | .hexadecimal, b => (48 ≤ b ∧ b ≤ 57) ∨ (65 ≤ b ∧ b ≤ 70) ∨ (97 ≤ b ∧ b ≤ 102)
  | .octal, b => 48 ≤ b ∧ b ≤ 55
  | .binary, b => 48 ≤ b ∧ b ≤ 49

/-- The value of a digit; letters are digits of the base sixteen. -/
def digitValue (b : UInt8) : Nat :=
  if b ≤ 57 then b.toNat - 48 else if b ≤ 70 then b.toNat - 55 else b.toNat - 87

/-- An integer; in front of a digit there may be an underscore. -/
inductive Numeral where
  | decimal (sign : Sign) (first : Fin 10) (rest : List (Bool × Fin 10))
  | based (base : Base) (digits : CString)

namespace Numeral

def digitText (digit : Bool × Fin 10) : CString :=
  (if digit.1 then [95] else []) ++ digitBytes [digit.2]

def text : Numeral → CString
  | .decimal sign first rest => sign.text ++ digitBytes [first] ++ rest.flatMap digitText
  | .based base digits => 48 :: base.marker :: digits

/-- The number that a numeral stands for. -/
def value : Numeral → Int
  | .decimal .minus first rest => -(JsonText.decimal (first :: rest.map Prod.snd) : Int)
  | .decimal _ first rest => JsonText.decimal (first :: rest.map Prod.snd)
  | .based base digits =>
      ((digits.filter (· != 95)).foldl (fun value b => value * base.size + digitValue b) 0 : Nat)

/-- No zero leads, and the number has 64 bits. -/
def WellFormed : Numeral → Prop
  | .decimal sign first rest => (first.val = 0 → rest = []) ∧
      -2 ^ 63 ≤ (decimal sign first rest).value ∧ (decimal sign first rest).value < 2 ^ 63
  | .based base digits => (∀ b ∈ digits, b = 95 ∨ base.IsDigit b) ∧ (based base digits).value < 2 ^ 63

end Numeral

inductive Value where
  | string (text : CString)
  | integer (numeral : Numeral)
  | boolean (value : Bool)

namespace Value

def text : Value → CString
  | .string text => 34 :: text ++ [34]
  | .integer numeral => numeral.text
  | .boolean value => literal (if value then "true" else "false")

/-- The value that is meant. -/
def meaning : Value → TomlValue
  | .string text => .string text
  | .integer numeral => .int (Int64.ofInt numeral.value)
  | .boolean value => .bool value

/-- Strings have no quotes and no line ends. -/
def WellFormed : Value → Prop
  | .string text => 34 ∉ text ∧ 10 ∉ text
  | .integer numeral => numeral.WellFormed
  | .boolean _ => True

end Value

/-- Blanks inside of a line. -/
def Blanks (spaces : CString) : Prop :=
  ∀ b ∈ spaces, b = 32 ∨ b = 9 ∨ b = 13

/-- A byte of a bare key. -/
def IsBare (b : UInt8) : Prop :=
  (48 ≤ b ∧ b ≤ 57) ∨ (65 ≤ b ∧ b ≤ 90) ∨ (97 ≤ b ∧ b ≤ 122) ∨ b = 95 ∨ b = 45

def PlainName (name : CString) : Prop :=
  name ≠ [] ∧ ∀ b ∈ name, IsBare b

/-- `key = value`. -/
structure Entry where
  before : CString
  key : CString
  beforeEq : CString
  afterEq : CString
  value : Value
  behind : CString
  comment : Option CString

inductive Line where
  | blank (spaces : CString)
  | comment (before text : CString)
  | header (before name behind : CString) (comment : Option CString)
  | entry (entry : Entry)

/-- A comment at the end of a line. -/
def commentText : Option CString → CString
  | none => []
  | some text => 35 :: text

def Entry.text (entry : Entry) : CString :=
  entry.before ++ entry.key ++ entry.beforeEq ++ 61 :: (entry.afterEq ++ entry.value.text ++
    entry.behind ++ commentText entry.comment)

def Entry.WellFormed (entry : Entry) : Prop :=
  Blanks entry.before ∧ PlainName entry.key ∧ Blanks entry.beforeEq ∧ Blanks entry.afterEq ∧
    entry.value.WellFormed ∧ Blanks entry.behind ∧ ∀ text ∈ entry.comment, 10 ∉ text

namespace Line

def text : Line → CString
  | .blank spaces => spaces
  | .comment before text => before ++ 35 :: text
  | .header before name behind remark =>
      before ++ 91 :: (name ++ 93 :: (behind ++ commentText remark))
  | .entry assignment => assignment.text

def WellFormed : Line → Prop
  | .blank spaces => Blanks spaces
  | .comment before text => Blanks before ∧ 10 ∉ text
  | .header before name behind remark =>
      Blanks before ∧ PlainName name ∧ Blanks behind ∧ ∀ text ∈ remark, 10 ∉ text
  | .entry assignment => assignment.WellFormed

def header? : Line → Option CString
  | .header _ name _ _ => some name
  | _ => none

/-- The name of a header or the key of an entry. -/
def key? : Line → Option CString
  | .header _ name _ _ => some name
  | .entry assignment => some assignment.key
  | _ => none

end Line

/-- A document; its headers have distinct names. -/
structure Document where
  lines : List Line
  wellFormed : ∀ line ∈ lines, line.WellFormed
  distinct : (lines.filterMap Line.header?).Nodup

def Document.text (document : Document) : CString :=
  [10].intercalate (document.lines.map Line.text)

/-- The entries with the headers that they stand behind. -/
def placed (table : Option CString) : List Line → List (Option CString × Entry)
  | [] => []
  | .header _ name _ _ :: lines => placed (some name) lines
  | .entry entry :: lines => (table, entry) :: placed table lines
  | _ :: lines => placed table lines

/-- An entry is in its table. -/
def InTable (root : List (CString × TomlValue)) : Option CString × Entry → Prop
  | (none, entry) => root.lookup entry.key = some entry.value.meaning
  | (some name, entry) => ∃ entries, root.lookup name = some (.table entries) ∧
      entries.lookup entry.key = some entry.value.meaning

/-- Every entry of a document is in its table. -/
def KeysBelong (toFloat : CString → UInt64) (document : Document) : Prop :=
  ∃ root, parse toFloat document.text = .table root ∧ ∀ entry ∈ placed none document.lines, InTable root entry

/-- A numeral in the decimal notation without underscores and without `+` unless it is zero; in
another base it is zero. -/
def Numeral.Plain : Numeral → Prop
  | .decimal sign first rest => (∀ digit ∈ rest, digit.1 = false) ∧ (sign = .plus → first.val = 0)
  | .based base digits => (Numeral.based base digits).value = 0

/-- A string or a boolean without a comment, or a plain numeral whose comment has no dot. -/
def Entry.Kept (entry : Entry) : Prop :=
  match entry.value with
  | .integer numeral => numeral.Plain ∧ ∀ text ∈ entry.comment, 46 ∉ text
  | .string _ | .boolean _ => entry.comment = none

/-- The last line with a name or key. -/
def lastLine (lines : List Line) (key : CString) : Option Line :=
  lines.reverse.find? fun line => line.key? = some key

/-- No entry stands behind a header, and the last line that has its key as its key or name is an
entry with the same value that is kept. -/
def AllKept (lines : List Line) : Prop :=
  ∀ entry ∈ placed none lines, entry.1 = none ∧
    ∃ final, lastLine lines entry.2.key = some (.entry final) ∧
      final.value.meaning = entry.2.value.meaning ∧ final.Kept

variable {spaces text : CString} {b : UInt8}

theorem isBlank_of_blanks (blanks : Blanks spaces) : ∀ b ∈ spaces, isBlank b = true := by
  intro b member
  rcases blanks b member with rfl | rfl | rfl <;> rfl

theorem tinoxStringTrim_blanks {spaces : CString} (blanks : Blanks spaces) (s : CString) :
    tinoxStringTrim (spaces ++ s) = tinoxStringTrim s := by
  rw [tinoxStringTrim, List.dropWhile_append_of_pos (isBlank_of_blanks blanks), tinoxStringTrim]

theorem rdropWhile_append {front : CString} (visible : ∀ b ∈ front.getLast?, isBlank b = false)
    (s : CString) : (front ++ s).rdropWhile isBlank = front ++ s.rdropWhile isBlank :=
  Stripping.rdropWhile_append
    (fun b isLast => by rw [visible b isLast]; exact Bool.false_ne_true) s

theorem rdropWhile_blanks (blanks : Blanks spaces) : spaces.rdropWhile isBlank = [] :=
  List.rdropWhile_eq_nil_iff.mpr (isBlank_of_blanks blanks)

/-- A text with no blank at its ends. -/
structure Visible (text : CString) : Prop where
  some : text ≠ []
  first : ∀ b ∈ text.head?, isBlank b = false
  last : ∀ b ∈ text.getLast?, isBlank b = false

theorem tinoxStringTrim_visible (visible : Visible text) (s : CString) :
    tinoxStringTrim (text ++ s) = text ++ s.rdropWhile isBlank := by
  rcases List.exists_cons_of_ne_nil visible.some with ⟨b, rest, rfl⟩
  have notBlank := visible.first b rfl
  rw [tinoxStringTrim, List.cons_append,
    List.dropWhile_cons_of_neg (by rw [notBlank]; exact Bool.false_ne_true), ← List.cons_append]
  exact rdropWhile_append visible.last s

theorem visible_of_forall (some : text ≠ []) (visible : ∀ b ∈ text, isBlank b = false) :
    Visible text :=
  ⟨some, fun b isFirst => visible b (List.mem_of_head? isFirst),
    fun b isLast => visible b (List.mem_of_getLast? isLast)⟩

theorem visible_concat {text : CString} {b : UInt8} (first : ∀ c ∈ text.head?, isBlank c = false)
    (last : isBlank b = false) : Visible (text ++ [b]) where
  some := List.append_ne_nil_of_right_ne_nil text (List.cons_ne_nil b [])
  first := by
    cases text with
    | nil =>
        rintro c ⟨⟩
        exact last
    | cons c text => exact first
  last := by
    intro c isLast
    rw [List.getLast?_concat] at isLast
    exact Option.some.inj isLast ▸ last

theorem indexOf_append {front : CString} (free : b ∉ front) (s : CString) :
    indexOf (front ++ b :: s) b = some front.length := by
  rw [indexOf, if_pos (List.mem_append_right front (List.mem_cons_self ..)),
    List.takeWhile_append_of_pos (p := (· != b)) fun c member => bne_iff_ne.mpr fun same => free (same ▸ member),
    List.takeWhile_cons_of_neg (by simp), List.append_nil]

variable {numeral : Numeral}

theorem forall_byte (property : UInt8 → Prop) (all : ∀ n : Fin 256, property (UInt8.ofNat n))
    (b : UInt8) : property b := by
  have isByte := all ⟨b.toNat, b.toNat_lt⟩
  rwa [UInt8.ofNat_toNat] at isByte

set_option maxRecDepth 1024 in
theorem bare_spec (isBare : IsBare b) :
    isBlank b = false ∧ b ≠ 35 ∧ b ≠ 91 ∧ b ≠ 93 ∧ b ≠ 61 ∧ b ≠ 10 := by
  revert isBare
  apply forall_byte fun b => IsBare b → isBlank b = false ∧ b ≠ 35 ∧ b ≠ 91 ∧ b ≠ 93 ∧ b ≠ 61 ∧
    b ≠ 10
  unfold IsBare
  decide

/-- A byte that a numeral may have. -/
def IsNumeralByte (b : UInt8) : Prop :=
  43 ≤ b ∧ b ≤ 122 ∧ b ≠ 46

set_option maxRecDepth 1024 in
theorem numeralByte_spec (isNumeral : IsNumeralByte b) :
    isBlank b = false ∧ b ≠ 10 ∧ b ≠ 34 ∧ b ≠ 46 := by
  revert isNumeral
  apply forall_byte fun b => IsNumeralByte b → isBlank b = false ∧ b ≠ 10 ∧ b ≠ 34 ∧ b ≠ 46
  unfold IsNumeralByte
  decide

set_option maxRecDepth 1024 in
theorem base_isDigit {base : Base} (isDigit : base.IsDigit b) : IsNumeralByte b := by
  revert isDigit
  apply forall_byte fun b => base.IsDigit b → IsNumeralByte b
  unfold IsNumeralByte Base.IsDigit
  cases base <;> decide

theorem digitBytes_numeral (digits : List (Fin 10)) : ∀ b ∈ digitBytes digits, IsNumeralByte b := by
  have ofDigit : ∀ digit : Fin 10, IsNumeralByte ('0'.toUInt8 + UInt8.ofNat digit.val) := by
    unfold IsNumeralByte
    decide
  rw [digitBytes, List.forall_mem_map]
  exact fun digit _ => ofDigit digit

theorem Numeral.text_spec (wellFormed : numeral.WellFormed) :
    numeral.text ≠ [] ∧ ∀ b ∈ numeral.text, IsNumeralByte b := by
  cases numeral with
  | decimal sign first rest =>
      have ofSign : ∀ b ∈ sign.text, IsNumeralByte b := by
        unfold IsNumeralByte
        cases sign with
        | none => exact List.forall_mem_nil _
        | plus | minus => exact List.forall_mem_singleton.mpr (by decide)
      have ofRest : ∀ b ∈ rest.flatMap digitText, IsNumeralByte b := by
        intro b member
        rcases List.mem_flatMap.mp member with ⟨digit, -, inDigit⟩
        rcases List.mem_append.mp inDigit with isUnderscore | isDigit
        · have isByte : IsNumeralByte 95 := by unfold IsNumeralByte; decide
          split at isUnderscore
          · exact List.mem_singleton.mp isUnderscore ▸ isByte
          · exact absurd isUnderscore List.not_mem_nil
        · exact digitBytes_numeral _ b isDigit
      refine ⟨?_, ?_⟩
      · exact List.append_ne_nil_of_left_ne_nil
          (List.append_ne_nil_of_right_ne_nil _ (List.cons_ne_nil _ _)) _
      · rw [text, List.forall_mem_append, List.forall_mem_append]
        exact ⟨⟨ofSign, digitBytes_numeral _⟩, ofRest⟩
  | based base digits =>
      have ofMarker : IsNumeralByte 48 ∧ IsNumeralByte base.marker ∧ IsNumeralByte 95 := by
        unfold IsNumeralByte
        cases base <;> decide
      refine ⟨List.cons_ne_nil _ _, ?_⟩
      rw [text, List.forall_mem_cons, List.forall_mem_cons]
      refine ⟨ofMarker.1, ofMarker.2.1, fun b member => ?_⟩
      rcases wellFormed.1 b member with rfl | isDigit
      · exact ofMarker.2.2
      · exact base_isDigit isDigit

theorem Value.text_spec {value : Value} (wellFormed : value.WellFormed) :
    Visible value.text ∧ 10 ∉ value.text := by
  cases value with
  | string text =>
      refine ⟨@visible_concat (34 :: text) 34 (by rintro c ⟨⟩; rfl) rfl, ?_⟩
      have noEnd : 10 ∉ text := wellFormed.2
      simp [Value.text, noEnd]
  | integer numeral =>
      rcases numeral.text_spec wellFormed with ⟨some, all⟩
      exact ⟨visible_of_forall some fun b member => (numeralByte_spec (all b member)).1,
        fun member => (numeralByte_spec (all 10 member)).2.1 rfl⟩
  | boolean value =>
      have noBlank : ∀ b ∈ (Value.boolean value).text, isBlank b = false := by
        have all : (Value.boolean value).text.all (isBlank · == false) = true := by
          cases value <;> rfl
        exact fun b member => eq_of_beq (List.all_eq_true.mp all b member)
      refine ⟨visible_of_forall ?_ noBlank, ?_⟩ <;> cases value <;> decide

/-! ## Numerals -/

theorem le_foldl (digits : List (Fin 10)) (start : Nat) :
    start ≤ digits.foldl (fun value (digit : Fin 10) => value * 10 + digit.val) start := by
  induction digits generalizing start with
  | nil => exact Nat.le_refl start
  | cons digit digits ih => exact Nat.le_trans (by omega) (ih (start * 10 + digit.val))

/-- The digits in front of the first underscore. -/
def plainDigits (rest : List (Bool × Fin 10)) : List (Fin 10) :=
  (rest.takeWhile fun digit => !digit.1).map Prod.snd

/-- Without an underscore these are all digits; else there is one behind them. -/
theorem plainDigits_cases (rest : List (Bool × Fin 10)) :
    (∀ digit ∈ rest, digit.1 = false) ∧ plainDigits rest = rest.map Prod.snd ∧
        rest.flatMap Numeral.digitText = digitBytes (plainDigits rest) ∨
      ¬(∀ digit ∈ rest, digit.1 = false) ∧ ∃ (digit : Fin 10) (later : List (Bool × Fin 10)),
        rest.map Prod.snd = plainDigits rest ++ digit :: later.map Prod.snd ∧
        rest.flatMap Numeral.digitText = digitBytes (plainDigits rest) ++
          95 :: (digitBytes [digit] ++ later.flatMap Numeral.digitText) := by
  induction rest with
  | nil => exact Or.inl ⟨fun digit member => absurd member List.not_mem_nil, rfl, rfl⟩
  | cons digit rest ih =>
      rcases digit with ⟨_ | _, digit⟩
      · have isPlain : plainDigits ((false, digit) :: rest) = digit :: plainDigits rest := rfl
        have isText : ((false, digit) :: rest).flatMap Numeral.digitText =
            digitBytes [digit] ++ rest.flatMap Numeral.digitText := rfl
        rcases ih with ⟨all, isAll, isRest⟩ | ⟨notAll, next, later, isSplit, isRest⟩
        · refine Or.inl ⟨List.forall_mem_cons.mpr ⟨rfl, all⟩, ?_, ?_⟩
          · rw [isPlain, isAll, List.map_cons]
          · rw [isText, isRest, isPlain]
            rfl
        · refine Or.inr ⟨fun all => notAll (List.forall_mem_cons.mp all).2, next, later, ?_, ?_⟩
          · rw [isPlain, List.map_cons, isSplit, List.cons_append]
          · rw [isText, isRest, isPlain]
            rfl
      · exact Or.inr ⟨fun all => Bool.noConfusion (List.forall_mem_cons.mp all).1, digit, rest, rfl, rfl⟩

theorem decimal_plainDigits {first : Fin 10} {rest : List (Bool × Fin 10)}
    (noLeadingZero : first.val = 0 → rest = []) :
    JsonText.decimal (first :: plainDigits rest) ≤ JsonText.decimal (first :: rest.map Prod.snd) ∧
      (JsonText.decimal (first :: plainDigits rest) = JsonText.decimal (first :: rest.map Prod.snd) ↔
        ∀ digit ∈ rest, digit.1 = false) := by
  rcases plainDigits_cases rest with ⟨all, isAll, -⟩ | ⟨notAll, digit, later, isSplit, -⟩
  · rw [isAll]
    exact ⟨Nat.le_refl _, iff_of_true rfl all⟩
  · have positive : 0 < first.val := by
      by_contra isZero
      rw [noLeadingZero (Nat.eq_zero_of_not_pos isZero)] at notAll
      exact notAll fun digit member => absurd member List.not_mem_nil
    have isPos : 0 * 10 + first.val ≤ JsonText.decimal (first :: plainDigits rest) :=
      le_foldl (plainDigits rest) (0 * 10 + first.val)
    have isMore : JsonText.decimal (first :: plainDigits rest) * 10 + digit.val ≤
        JsonText.decimal (first :: rest.map Prod.snd) := by
      rw [isSplit, JsonText.decimal, JsonText.decimal, ← List.cons_append, List.foldl_append,
        List.foldl_cons]
      exact le_foldl _ _
    exact ⟨by omega, iff_of_false (by omega) notAll⟩

/-- What is behind a value begins with no digit. -/
def Stops (tail : CString) : Prop :=
  ∀ b ∈ tail.head?, b = 32 ∨ b = 9 ∨ b = 13 ∨ b = 35

theorem Stops.boundary {tail : CString} (stops : Stops tail) : Boundary tail := by
  intro b isHead
  rcases stops b isHead with rfl | rfl | rfl | rfl <;> decide

theorem readDigits_decimal (first : Fin 10) (rest : List (Bool × Fin 10)) {tail : CString}
    (stops : Stops tail) :
    (readDigits 0 (digitBytes [first] ++ rest.flatMap Numeral.digitText ++ tail)).1 =
      Int64.ofNat (JsonText.decimal (first :: plainDigits rest)) := by
  have isRead (p : CString) (boundary : Boundary p) :=
    congrArg Prod.fst (readDigits_spec (first :: plainDigits rest) 0 boundary)
  rcases plainDigits_cases rest with ⟨-, -, isText⟩ | ⟨-, digit, later, -, isText⟩
  · rw [isText]
    exact isRead tail stops.boundary
  · rw [isText, List.append_assoc, List.append_assoc, List.cons_append]
    exact isRead _ (Boundary.of_cons (by decide) _)

theorem tinoxStringToInt_numeral (wellFormed : numeral.WellFormed) {tail : CString}
    (stops : Stops tail) :
    ∃ read : Int, tinoxStringToInt (numeral.text ++ tail) = Int64.ofInt read ∧
      -2 ^ 63 ≤ read ∧ read < 2 ^ 63 ∧ (read = numeral.value ↔ numeral.Plain) := by
  cases numeral with
  | decimal sign first rest =>
      rcases wellFormed with ⟨noLeadingZero, low, high⟩
      rcases decimal_plainDigits noLeadingZero with ⟨isLess, isSame⟩
      have isRead := readDigits_decimal first rest stops
      have noSign : ∀ digit : Fin 10, '0'.toUInt8 + UInt8.ofNat digit.val ≠ '-'.toUInt8 := by decide
      cases sign with
      | none =>
          change (JsonText.decimal (first :: rest.map Prod.snd) : Int) < 2 ^ 63 at high
          refine ⟨JsonText.decimal (first :: plainDigits rest), ?_, by omega, by omega, ?_⟩
          · rw [Int64.ofInt_eq_ofNat, ← isRead]
            exact if_neg fun isSign => noSign first (Option.some.inj isSign)
          · rw [Numeral.Plain, and_iff_left (fun isPlus => by cases isPlus), ← isSame]
            exact Int.ofNat_inj
      | plus =>
          refine ⟨0, rfl, by decide, by decide, ?_⟩
          change (0 : Int) = (JsonText.decimal (first :: rest.map Prod.snd) : Int) ↔ _
          constructor
          · intro isZero
            have isPos : 0 * 10 + first.val ≤ JsonText.decimal (first :: rest.map Prod.snd) :=
              le_foldl (rest.map Prod.snd) (0 * 10 + first.val)
            have isFirst : first.val = 0 := by omega
            rw [Numeral.Plain, noLeadingZero isFirst]
            exact ⟨fun digit member => absurd member List.not_mem_nil, fun _ => isFirst⟩
          · rintro ⟨-, isZero⟩
            rw [noLeadingZero (isZero rfl), List.map_nil, JsonText.decimal, List.foldl_cons,
              List.foldl_nil, isZero rfl]
            rfl
      | minus =>
          change -2 ^ 63 ≤ -(JsonText.decimal (first :: rest.map Prod.snd) : Int) at low
          refine ⟨-(JsonText.decimal (first :: plainDigits rest)), ?_, by omega, by omega, ?_⟩
          · rw [Int64.ofInt_neg, Int64.ofInt_eq_ofNat, ← isRead]
            exact if_pos rfl
          · rw [Numeral.Plain, and_iff_left (fun isPlus => by cases isPlus), ← isSame]
            change -(_ : Int) = -(_ : Int) ↔ _
            rw [neg_inj]
            exact Int.ofNat_inj
  | based base digits =>
      refine ⟨0, ?_, by decide, by decide, eq_comm⟩
      cases base <;> rfl

theorem Numeral.text_head : ∀ b ∈ numeral.text.head?, b ≤ 57 := by
  have ofDigit : ∀ digit : Fin 10, '0'.toUInt8 + UInt8.ofNat digit.val ≤ 57 := by decide
  intro b isHead
  cases numeral with
  | decimal sign first rest =>
      cases sign with
      | none => exact Option.some.inj isHead ▸ ofDigit first
      | plus | minus => exact Option.some.inj isHead ▸ (by decide)
  | based base digits => exact Option.some.inj isHead ▸ (by decide)

/-! ## Lines -/

/-- What is behind a value when the line has been trimmed. -/
def Entry.tail (entry : Entry) : CString :=
  (entry.behind ++ commentText entry.comment).rdropWhile isBlank

variable {entry : Entry} {line : Line} {lines : List Line}

section Parsing

variable (toFloat : CString → UInt64)

/-- What a line stores: an entry its value with what is behind it, a header an empty table. -/
def Line.stored : Line → Option (CString × TomlValue)
  | .header _ name _ _ => some (name, .table [])
  | .entry assignment =>
      some (assignment.key, parseValue toFloat (assignment.value.text ++ assignment.tail))
  | _ => none

theorem parseLine_blanks (blanks : Blanks spaces) (line : CString) :
    parseLine toFloat (spaces ++ line) = parseLine toFloat line := by
  rw [parseLine, tinoxStringTrim_blanks blanks, parseLine]

theorem parseLine_header {name : CString} (plain : PlainName name) (behind : CString) :
    parseLine toFloat (91 :: name ++ [93] ++ behind) = some (name, .table []) := by
  have visible : Visible (91 :: name ++ [93]) := visible_concat (by rintro c ⟨⟩; rfl) rfl
  have free : 93 ∉ 91 :: name := by
    rw [List.mem_cons, not_or]
    exact ⟨by decide, fun member => (bare_spec (plain.2 93 member)).2.2.2.1 rfl⟩
  rw [parseLine, tinoxStringTrim_visible visible, List.append_assoc, List.singleton_append]
  rw [if_neg (not_or_intro (List.append_ne_nil_of_left_ne_nil (List.cons_ne_nil _ _) _)
    (by exact Bool.false_ne_true)),
    if_pos (show (literal "[").isPrefixOf (91 :: name ++ 93 :: behind.rdropWhile isBlank) = true from rfl),
    indexOf_append free, Option.map_some, List.take_left]
  rfl

theorem parseLine_entry (wellFormed : entry.WellFormed) : parseLine toFloat entry.text =
      some (entry.key, parseValue toFloat (entry.value.text ++ entry.tail)) := by
  rcases wellFormed with ⟨before, plain, beforeEq, afterEq, isValue, -, -⟩
  have ofKey (b : UInt8) (member : b ∈ entry.key) := bare_spec (plain.2 b member)
  have keyVisible := visible_of_forall plain.1 fun b member => (ofKey b member).1
  have valueVisible := (entry.value.text_spec isValue).1
  have isText : entry.text = entry.before ++ ((entry.key ++ entry.beforeEq ++ [61]) ++
      (entry.afterEq ++ entry.value.text ++ (entry.behind ++ commentText entry.comment))) := by
    simp [Entry.text]
  have free : 61 ∉ entry.key ++ entry.beforeEq := by
    rw [List.mem_append, not_or]
    exact ⟨fun member => (ofKey 61 member).2.2.2.2.1 rfl,
      fun member => absurd (beforeEq 61 member) (by decide)⟩
  have headVisible : Visible (entry.key ++ entry.beforeEq ++ [61]) := by
    refine visible_concat (fun c isFirst => keyVisible.first c ?_) rfl
    rwa [List.head?_append_of_ne_nil _ plain.1] at isFirst
  have lastVisible : ∀ b ∈ (entry.afterEq ++ entry.value.text).getLast?, isBlank b = false := by
    rw [List.getLast?_append_of_ne_nil _ valueVisible.some]
    exact valueVisible.last
  have isTrimmed : tinoxStringTrim entry.text = entry.key ++ entry.beforeEq ++ 61 ::
      (entry.afterEq ++ (entry.value.text ++ entry.tail)) := by
    rw [isText, tinoxStringTrim_blanks before, tinoxStringTrim_visible headVisible,
      rdropWhile_append lastVisible, List.append_assoc, List.append_assoc entry.afterEq,
      List.singleton_append]
    rfl
  have isKey : tinoxStringTrim (entry.key ++ entry.beforeEq) = entry.key := by
    rw [tinoxStringTrim_visible keyVisible, rdropWhile_blanks beforeEq, List.append_nil]
  have isTail : tinoxStringTrim (entry.afterEq ++ (entry.value.text ++ entry.tail)) =
      entry.value.text ++ entry.tail := by
    rw [tinoxStringTrim_blanks afterEq, tinoxStringTrim_visible valueVisible, Entry.tail,
      List.rdropWhile_idempotent]
  rcases List.exists_cons_of_ne_nil plain.1 with ⟨c, key, isCons⟩
  have ofFirst := ofKey c (isCons ▸ List.mem_cons_self ..)
  have notComment : ¬(tinoxStringTrim entry.text = [] ∨
      (literal "#").isPrefixOf (tinoxStringTrim entry.text)) := by
    rw [isTrimmed, isCons]
    rintro (isEmpty | isComment)
    · exact List.cons_ne_nil _ _ isEmpty
    · rw [List.isPrefixOf_iff_prefix] at isComment
      exact ofFirst.2.1 (List.cons_prefix_cons.mp isComment).1.symm
  have notHeader : ¬(literal "[").isPrefixOf (tinoxStringTrim entry.text) := by
    rw [isTrimmed, isCons, List.isPrefixOf_iff_prefix]
    exact fun isHeader => ofFirst.2.2.1 (List.cons_prefix_cons.mp isHeader).1.symm
  have isDrop : (entry.key ++ entry.beforeEq ++ 61 ::
      (entry.afterEq ++ (entry.value.text ++ entry.tail))).drop
        ((entry.key ++ entry.beforeEq).length + 1) =
      entry.afterEq ++ (entry.value.text ++ entry.tail) := by
    rw [List.append_cons]
    exact List.drop_left' List.length_append
  rw [parseLine]
  rw [if_neg notComment, if_neg notHeader, isTrimmed, indexOf_append free, Option.map_some,
    List.take_left, isKey, isDrop, isTail]

theorem parseLine_text (wellFormed : line.WellFormed) :
    parseLine toFloat line.text = line.stored toFloat := by
  cases line with
  | blank spaces =>
      have isEmpty := @tinoxStringTrim_blanks spaces wellFormed []
      rw [List.append_nil] at isEmpty
      rw [Line.text, parseLine, isEmpty]
      rfl
  | comment before text =>
      have visible : Visible [35] := visible_of_forall (List.cons_ne_nil _ _)
        (List.forall_mem_singleton.mpr rfl)
      have isTrimmed := tinoxStringTrim_visible visible text
      rw [Line.text, parseLine_blanks toFloat wellFormed.1, parseLine]
      rw [List.singleton_append] at isTrimmed
      rw [isTrimmed]
      exact if_pos (Or.inr rfl)
  | header before name behind remark =>
      have isHeader := parseLine_header toFloat wellFormed.2.1 (behind ++ commentText remark)
      rw [List.append_assoc, List.singleton_append] at isHeader
      rw [Line.text, parseLine_blanks toFloat wellFormed.1]
      exact isHeader
  | entry assignment => exact parseLine_entry toFloat wellFormed

theorem blanks_notLf (blanks : Blanks spaces) : 10 ∉ spaces :=
  fun member => absurd (blanks 10 member) (by decide)

theorem commentText_notLf {remark : Option CString} (free : ∀ text ∈ remark, 10 ∉ text) :
    10 ∉ commentText remark := by
  cases remark with
  | none => exact List.not_mem_nil
  | some text =>
      rw [commentText, List.mem_cons, not_or]
      exact ⟨by decide, free text rfl⟩

theorem name_notLf {name : CString} (plain : PlainName name) : 10 ∉ name :=
  fun member => (bare_spec (plain.2 10 member)).2.2.2.2.2 rfl

theorem line_notLf (wellFormed : line.WellFormed) : 10 ∉ line.text := by
  cases line with
  | blank spaces => exact blanks_notLf wellFormed
  | comment before text =>
      have free := blanks_notLf wellFormed.1
      simp [Line.text, free, wellFormed.2]
  | header before name behind remark =>
      rcases wellFormed with ⟨before, plain, behind, remark⟩
      simp [Line.text, blanks_notLf before, name_notLf plain, blanks_notLf behind,
        commentText_notLf remark]
  | entry assignment =>
      rcases wellFormed with ⟨before, plain, beforeEq, afterEq, isValue, behind, remark⟩
      simp [Line.text, Entry.text, blanks_notLf before, name_notLf plain, blanks_notLf beforeEq,
        blanks_notLf afterEq, (Value.text_spec isValue).2, blanks_notLf behind,
        commentText_notLf remark]

theorem foldl_stored (root : List (CString × TomlValue))
    (wellFormed : ∀ line ∈ lines, line.WellFormed) : (lines.map Line.text).foldl (fun root line =>
      match parseLine toFloat line with
      | none => root
      | some entry => put root entry.1 entry.2) root =
    putAll root (lines.filterMap (Line.stored toFloat)) := by
  induction lines generalizing root with
  | nil => rfl
  | cons line lines ih =>
      rw [List.forall_mem_cons] at wellFormed
      rw [List.map_cons, List.foldl_cons, ih _ wellFormed.2, parseLine_text toFloat wellFormed.1,
        List.filterMap_cons]
      cases line.stored toFloat with
      | none => rfl
      | some entry => rfl

theorem parseEntries_text (document : Document) :
    parseEntries toFloat document.text =
      putAll [] (document.lines.filterMap (Line.stored toFloat)) := by
  rw [parseEntries, Document.text]
  by_cases isEmpty : document.lines = []
  · rw [isEmpty]
    rfl
  · rw [List.splitOn_intercalate, foldl_stored toFloat [] document.wellFormed]
    · rw [List.forall_mem_map]
      exact fun line member => line_notLf (document.wellFormed line member)
    · exact fun isNil => isEmpty (List.map_eq_nil_iff.mp isNil)

/-! ## Values -/

theorem parseValue_string (free : 34 ∉ text) (tail : CString) :
    parseValue toFloat (34 :: text ++ [34] ++ tail) = .string (text ++ tail.filter (· != 34)) := by
  have isText : text.filter (· != 34) = text :=
    List.filter_eq_self.mpr fun b member => bne_iff_ne.mpr fun same => free (same ▸ member)
  have isValue : (34 :: text ++ [34] ++ tail).filter (· != 34) = text ++ tail.filter (· != 34) := by
    rw [List.append_assoc, List.cons_append, List.filter_cons_of_neg (by decide), List.filter_append,
      isText]
    rfl
  rw [← isValue]
  exact if_pos rfl

theorem parseValue_number {value : CString} (notQuote : value.head? ≠ some 34)
    (notTrue : value ≠ literal "true") (notFalse : value ≠ literal "false") :
    parseValue toFloat value =
      if 46 ∈ value then .float (toFloat value) else .int (tinoxStringToInt value) := by
  have noPrefix : ¬(literal "\"").isPrefixOf value := by
    rw [List.isPrefixOf_iff_prefix]
    rintro ⟨rest, rfl⟩
    exact notQuote rfl
  rw [parseValue, if_neg noPrefix, if_neg notTrue, if_neg notFalse]

theorem parseValue_boolean (value : Bool) (tail : CString) :
    parseValue toFloat (literal (if value then "true" else "false") ++ tail) = .bool value ↔
      tail = [] := by
  cases tail with
  | nil => cases value <;> exact iff_of_true rfl rfl
  | cons b tail =>
      refine iff_of_false ?_ (List.cons_ne_nil b tail)
      rw [parseValue_number toFloat (by cases value <;> nofun) (by cases value <;> nofun)
        (by cases value <;> nofun)]
      generalize literal (if value then "true" else "false") ++ b :: tail = text
      by_cases dot : 46 ∈ text
      · rw [if_pos dot]
        exact fun same => TomlValue.noConfusion same
      · rw [if_neg dot]
        exact fun same => TomlValue.noConfusion same

theorem parseValue_integer (wellFormed : numeral.WellFormed) {tail : CString} (stops : Stops tail) :
    parseValue toFloat (numeral.text ++ tail) = .int (Int64.ofInt numeral.value) ↔
      numeral.Plain ∧ 46 ∉ tail := by
  rcases numeral.text_spec wellFormed with ⟨notEmpty, all⟩
  rcases tinoxStringToInt_numeral wellFormed stops with ⟨read, isRead, low, high, isPlain⟩
  have isValue : -2 ^ 63 ≤ numeral.value ∧ numeral.value < 2 ^ 63 := by
    cases numeral with
    | decimal sign first rest => exact wellFormed.2
    | based base digits =>
        have notNegative : 0 ≤ (Numeral.based base digits).value := Int.natCast_nonneg _
        exact ⟨by omega, wellFormed.2⟩
  rcases List.exists_cons_of_ne_nil notEmpty with ⟨first, rest, isCons⟩
  have isFirst := numeral.text_head first (by rw [isCons]; rfl)
  have ofFirst := numeralByte_spec (all first (isCons ▸ List.mem_cons_self ..))
  have noDot : 46 ∉ numeral.text := fun member => (numeralByte_spec (all 46 member)).2.2.2 rfl
  have notLiteral {b : UInt8} (large : ¬b ≤ 57) (text : CString) : numeral.text ++ tail ≠ b :: text := by
    rw [isCons]
    exact fun same => large ((List.cons_eq_cons.mp same).1 ▸ isFirst)
  have notQuote : (numeral.text ++ tail).head? ≠ some 34 := by
    rw [isCons]
    exact fun isQuote => ofFirst.2.2.1 (Option.some.inj isQuote)
  rw [parseValue_number toFloat notQuote (notLiteral (by decide) _) (notLiteral (by decide) _), ← isPlain,
    isRead]
  by_cases dot : 46 ∈ tail
  · rw [if_pos (List.mem_append_right _ dot)]
    exact iff_of_false (fun same => TomlValue.noConfusion same) fun both => both.2 dot
  · have noDots : 46 ∉ numeral.text ++ tail := by
      rw [List.mem_append]
      exact not_or_intro noDot dot
    rw [if_neg noDots, and_iff_left dot, TomlValue.int.injEq]
    constructor
    · intro same
      have isInt := congrArg Int64.toInt same
      rwa [Int64.toInt_ofInt_of_le low high, Int64.toInt_ofInt_of_le isValue.1 isValue.2] at isInt
    · exact congrArg Int64.ofInt

end Parsing

theorem mem_rdropWhile (visible : isBlank b = false) (s : CString) :
    b ∈ s.rdropWhile isBlank ↔ b ∈ s := by
  conv_rhs => rw [← List.rdropWhile_append_rtakeWhile (p := isBlank) (l := s)]
  rw [List.mem_append]
  refine (or_iff_left fun member => ?_).symm
  exact Bool.false_ne_true (visible.symm.trans (List.mem_rtakeWhile_imp member))

theorem Entry.tail_cases (wellFormed : entry.WellFormed) : Stops entry.tail ∧
      (entry.comment = none ∧ entry.tail = [] ∨ ∃ text, entry.comment = some text ∧
        35 ∈ entry.tail ∧ (46 ∈ entry.tail ↔ 46 ∈ text)) := by
  rcases wellFormed with ⟨-, -, -, -, -, behind, -⟩
  rw [Entry.tail]
  cases entry.comment with
  | none =>
      rw [commentText, List.append_nil, rdropWhile_blanks behind]
      exact ⟨fun b isHead => (Option.some_ne_none _ isHead.symm).elim, Or.inl ⟨rfl, rfl⟩⟩
  | some text =>
      have visible : ∀ b ∈ (entry.behind ++ [35]).getLast?, isBlank b = false := by
        rw [List.getLast?_concat]
        rintro b ⟨⟩
        rfl
      rw [commentText, List.append_cons, rdropWhile_append visible]
      refine ⟨?_, Or.inr ⟨text, rfl, ?_, ?_⟩⟩
      · intro b isHead
        rcases isBehind : entry.behind with _ | ⟨c, others⟩
        · rw [isBehind] at isHead
          exact Or.inr (Or.inr (Or.inr (Option.some.inj isHead).symm))
        · rw [isBehind] at isHead
          have isBlank := behind c (isBehind ▸ List.mem_cons_self ..)
          rw [← Option.some.inj isHead]
          exact isBlank.elim Or.inl fun others => Or.inr (others.elim Or.inl fun isCr => Or.inr (Or.inl isCr))
      · simp
      · have noDot : 46 ∉ entry.behind := fun member => absurd (behind 46 member) (by decide)
        simp [noDot, mem_rdropWhile (b := 46) rfl]

theorem kept_iff (toFloat : CString → UInt64) (wellFormed : entry.WellFormed) :
    parseValue toFloat (entry.value.text ++ entry.tail) = entry.value.meaning ↔ entry.Kept := by
  rcases entry.tail_cases wellFormed with ⟨stops, tailCases⟩
  have isValue := wellFormed.2.2.2.2.1
  rw [Entry.Kept]
  rcases isKind : entry.value with text | numeral | value
  · rw [isKind] at isValue
    rw [Value.text, parseValue_string toFloat isValue.1, Value.meaning, TomlValue.string.injEq,
      List.append_right_eq_self]
    rcases tailCases with ⟨noComment, isTail⟩ | ⟨comment, isComment, hash, -⟩
    · rw [isTail]
      exact iff_of_true rfl noComment
    · have inFilter : 35 ∈ entry.tail.filter (· != 34) := List.mem_filter.mpr ⟨hash, rfl⟩
      exact iff_of_false (List.ne_nil_of_mem inFilter)
        (isComment ▸ Option.some_ne_none comment)
  · rw [isKind] at isValue
    rw [Value.text, Value.meaning, parseValue_integer toFloat isValue stops]
    refine and_congr_right' ?_
    rcases tailCases with ⟨noComment, isTail⟩ | ⟨comment, isComment, -, dot⟩
    · rw [isTail, noComment]
      exact iff_of_true List.not_mem_nil fun text isSome => (Option.some_ne_none _ isSome.symm).elim
    · rw [isComment, dot]
      exact ⟨fun noDot text isSome => Option.some.inj isSome ▸ noDot, fun all => all comment rfl⟩
  · rw [Value.text, Value.meaning, parseValue_boolean]
    rcases tailCases with ⟨noComment, isTail⟩ | ⟨comment, isComment, hash, -⟩
    · exact iff_of_true isTail noComment
    · exact iff_of_false (List.ne_nil_of_mem hash) (isComment ▸ Option.some_ne_none comment)

/-! ## What a document stores -/

theorem stored_cases (toFloat : CString → UInt64) (line : Line) :
    line.stored toFloat = none ∧ line.key? = none ∨
      ∃ key value, line.stored toFloat = some (key, value) ∧ line.key? = some key := by
  cases line with
  | blank spaces | comment before text => exact Or.inl ⟨rfl, rfl⟩
  | header before name behind remark | entry entry => exact Or.inr ⟨_, _, rfl, rfl⟩

theorem last_filterMap (toFloat : CString → UInt64) (lines : List Line) (key : CString) :
    last (lines.filterMap (Line.stored toFloat)) key =
      (lastLine lines key).bind fun line => (line.stored toFloat).map Prod.snd := by
  rw [last, ← List.filterMap_reverse, lastLine]
  induction lines.reverse with
  | nil => rfl
  | cons line lines ih =>
      rcases stored_cases toFloat line with ⟨isNone, noKey⟩ | ⟨other, value, isStored, isKey⟩
      · rw [List.filterMap_cons_none isNone, List.find?_cons_of_neg (by simp [noKey]), ih]
      · rw [List.filterMap_cons_some isStored, List.lookup_cons]
        by_cases same : key = other
        · rw [same, List.find?_cons_of_pos (by simp [isKey])]
          simp [isStored]
        · rw [beq_eq_false_iff_ne.mpr same, List.find?_cons_of_neg (by simp [isKey, Ne.symm same]), ih]

theorem lookup_parseEntries (toFloat : CString → UInt64) (document : Document) (key : CString) :
    (parseEntries toFloat document.text).lookup key =
      (lastLine document.lines key).bind fun line => (line.stored toFloat).map Prod.snd := by
  rw [parseEntries_text, lookup_putAll, last_filterMap, List.lookup_nil, Option.or_none]

theorem parseValue_ne_table (toFloat : CString → UInt64) (value : CString)
    (entries : List (CString × TomlValue)) : parseValue toFloat value ≠ .table entries := by
  rw [parseValue]
  repeat' split
  all_goals exact fun same => TomlValue.noConfusion same

theorem mem_placed (member : Line.entry entry ∈ lines) (table : Option CString) :
    ∃ other, (other, entry) ∈ placed table lines := by
  induction lines generalizing table with
  | nil => exact absurd member List.not_mem_nil
  | cons line lines ih =>
      rcases List.mem_cons.mp member with rfl | later
      · exact ⟨table, List.mem_cons_self ..⟩
      · cases line with
        | blank spaces | comment before text => exact ih later table
        | header before name behind remark => exact ih later (some name)
        | entry first =>
            rcases ih later table with ⟨other, isPlaced⟩
            exact ⟨other, List.mem_cons_of_mem _ isPlaced⟩

theorem mem_of_lastLine {key : CString} (isLast : lastLine lines key = some line) :
    line ∈ lines ∧ line.key? = some key :=
  ⟨List.mem_reverse.mp (List.mem_of_find?_eq_some isLast), by simpa using List.find?_some isLast⟩

theorem lookup_cases {toFloat : CString → UInt64} {document : Document} {key : CString}
    {value : TomlValue} (found : (parseEntries toFloat document.text).lookup key = some value) :
    value = .table [] ∨ ∃ entry, lastLine document.lines key = some (.entry entry) ∧
      parseValue toFloat (entry.value.text ++ entry.tail) = value := by
  rw [lookup_parseEntries] at found
  rcases Option.bind_eq_some_iff.mp found with ⟨line, isLast, isValue⟩
  cases line with
  | blank spaces | comment before text => exact (Option.some_ne_none _ isValue.symm).elim
  | header before name behind remark => exact Or.inl (Option.some.inj isValue).symm
  | entry entry => exact Or.inr ⟨entry, isLast, Option.some.inj isValue⟩

/-- Every entry of a document is in its table if and only if none stands behind a header and the
last line with its key is an entry with its value that is kept. -/
theorem keysBelong_iff (toFloat : CString → UInt64) (document : Document) :
    KeysBelong toFloat document ↔ AllKept document.lines := by
  constructor
  · rintro ⟨root, isRoot, inTable⟩
    obtain rfl : parseEntries toFloat document.text = root := TomlValue.table.inj isRoot
    have noTable : ∀ entry ∈ placed none document.lines, entry.1 = none := by
      rintro ⟨_ | name, entry⟩ member
      · rfl
      · rcases inTable _ member with ⟨entries, isTable, isValue⟩
        rcases lookup_cases isTable with isEmpty | ⟨final, -, isValueTable⟩
        · rw [TomlValue.table.inj isEmpty] at isValue
          exact (Option.some_ne_none _ isValue.symm).elim
        · exact absurd isValueTable (parseValue_ne_table toFloat _ entries)
    have atTop (entry : Entry) (member : Line.entry entry ∈ document.lines) :
        (parseEntries toFloat document.text).lookup entry.key = some entry.value.meaning := by
      rcases mem_placed member none with ⟨other, isPlaced⟩
      have isNone : other = none := noTable _ isPlaced
      rw [isNone] at isPlaced
      exact inTable _ isPlaced
    rintro ⟨table, entry⟩ member
    refine ⟨noTable _ member, ?_⟩
    have isNone : table = none := noTable _ member
    have found : (parseEntries toFloat document.text).lookup entry.key = some entry.value.meaning := by
      rw [isNone] at member
      exact inTable _ member
    rcases lookup_cases found with isTable | ⟨final, isLast, isValue⟩
    · rcases isKind : entry.value with text | numeral | value <;>
        rw [isKind] at isTable <;> exact TomlValue.noConfusion isTable
    · rcases mem_of_lastLine isLast with ⟨inLines, isKey⟩
      have sameKey : final.key = entry.key := Option.some.inj isKey
      have ofFinal := atTop final inLines
      rw [sameKey, found] at ofFinal
      have sameValue := Option.some.inj ofFinal
      exact ⟨final, isLast, sameValue.symm,
        (kept_iff toFloat (document.wellFormed _ inLines)).mp (isValue.trans sameValue)⟩
  · intro allKept
    refine ⟨parseEntries toFloat document.text, rfl, ?_⟩
    rintro ⟨table, entry⟩ member
    rcases allKept _ member with ⟨isNone, final, isLast, sameValue, kept⟩
    obtain rfl : table = none := isNone
    have inLines := (mem_of_lastLine isLast).1
    change (parseEntries toFloat document.text).lookup entry.key = some entry.value.meaning
    rw [lookup_parseEntries, isLast, ← sameValue,
      ← (kept_iff toFloat (document.wellFormed _ inLines)).mpr kept]
    rfl

/-- A header `[a]` and `x = 1` behind it. -/
def oneSection : Document where
  lines := [.header [] (literal "a") [] none,
    .entry ⟨[], literal "x", [32], [32], .integer (.decimal .none ⟨1, by decide⟩ []), [], none⟩]
  wellFormed := by
    simp only [List.forall_mem_cons]
    refine ⟨⟨?_, ⟨?_, ?_⟩, ?_, ?_⟩, ⟨?_, ⟨?_, ?_⟩, ?_, ?_, ⟨?_, ?_⟩, ?_, ?_⟩, ?_⟩
    all_goals simp [Blanks, IsBare, Numeral.value, JsonText.decimal, literal]
    all_goals decide
  distinct := by decide

/-- The key of a section is in no table of that name. -/
theorem oneSection_notBelong : ¬KeysBelong (fun _ => 0) oneSection := by
  rintro ⟨root, isRoot, inTable⟩
  obtain rfl : parseEntries (fun _ => 0) oneSection.text = root := TomlValue.table.inj isRoot
  have found : (parseEntries (fun _ => 0) oneSection.text).lookup (literal "a") = some (.table []) := by
    rw [lookup_parseEntries]
    rfl
  rcases inTable _ (List.mem_cons_self ..) with ⟨entries, isTable, isValue⟩
  obtain rfl : [] = entries := TomlValue.table.inj (Option.some.inj (found.symm.trans isTable))
  exact Option.some_ne_none _ isValue.symm

end Tinox.Formats.Toml
