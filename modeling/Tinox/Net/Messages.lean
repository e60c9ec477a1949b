import Tinox.Data.Stripping

/-!
# Messages of HTTP/1.1

The head of a message: lines that end in CR and LF, and an empty line behind them.  A field
line has a token, a colon and a value without blanks around it.  `readHead` and `readField` take
what the grammar has and nothing else.
-/

namespace Messages

abbrev Bytes := List UInt8

/-- The end of a line. -/
def crlf : Bytes := [13, 10]

/-- A byte that may stand in a line: neither CR nor LF nor NUL. -/
def IsPlain (b : UInt8) : Prop :=
  b ≠ 13 ∧ b ≠ 10 ∧ b ≠ 0

instance (b : UInt8) : Decidable (IsPlain b) :=
  inferInstanceAs (Decidable (_ ∧ _))

def Plain (line : Bytes) : Prop :=
  ∀ b ∈ line, IsPlain b

instance (line : Bytes) : Decidable (Plain line) :=
  List.decidableBAll IsPlain line

variable {lines : List Bytes} {line text : Bytes}

theorem Plain.append {first second : Bytes} (left : Plain first) (right : Plain second) :
    Plain (first ++ second) := by
  intro b member
  rcases List.mem_append.mp member with inFirst | inSecond
  · exact left b inFirst
  · exact right b inSecond

/-- Lines with their ends. -/
def linesText (lines : List Bytes) : Bytes :=
  lines.flatMap fun line => line ++ crlf

/-- The bytes of a head. -/
def headText (lines : List Bytes) : Bytes :=
  linesText lines ++ crlf

theorem linesText_cons (line : Bytes) (lines : List Bytes) :
    linesText (line :: lines) = line ++ crlf ++ linesText lines :=
  rfl

theorem linesText_append (first second : List Bytes) :
    linesText (first ++ second) = linesText first ++ linesText second :=
  List.flatMap_append

/-- The lines of a head and what is behind it; `line` is what was read of the first line. -/
def readHead (line : Bytes) : Bytes → Option (List Bytes × Bytes)
  | [] => none
  | 13 :: 10 :: text =>
      if line = [] then some ([], text)
      else (readHead [] text).map fun (lines, rest) => (line :: lines, rest)
  | b :: text => if IsPlain b then readHead (line ++ [b]) text else none

theorem readHead_plain {piece : Bytes} (plain : Plain piece) (line text : Bytes) :
    readHead line (piece ++ text) = readHead (line ++ piece) text := by
  induction piece generalizing line with
  | nil => simp
  | cons b piece ih =>
      have isPlain : IsPlain b := plain b (List.mem_cons_self ..)
      rw [List.cons_append, readHead, if_pos isPlain, ih fun c member => plain c (.tail _ member)]
      · rw [List.append_assoc, List.singleton_append]
      · exact fun _ isEnd _ => isPlain.1 isEnd

theorem readHead_headText (plain : ∀ line ∈ lines, Plain line ∧ line ≠ []) (text : Bytes) :
    readHead [] (headText lines ++ text) = some (lines, text) := by
  induction lines with
  | nil => rfl
  | cons line lines ih =>
      rw [List.forall_mem_cons] at plain
      rcases plain with ⟨⟨linePlain, notEmpty⟩, others⟩
      have isText : headText (line :: lines) ++ text =
          line ++ (13 :: 10 :: (headText lines ++ text)) := by
        simp [headText, linesText_cons, crlf]
      rw [isText, readHead_plain linePlain, List.nil_append, readHead, if_neg notEmpty, ih others]
      rfl

theorem plain_of_readHead {rest : Bytes} (linePlain : Plain line)
    (isRead : readHead line text = some (lines, rest)) : ∀ l ∈ lines, Plain l := by
  fun_induction readHead line text generalizing lines with
  | case1 => contradiction
  | case2 text =>
      cases isRead
      exact fun l member => absurd member List.not_mem_nil
  | case3 line text notEmpty ih =>
      rcases Option.map_eq_some_iff.mp isRead with ⟨⟨others, _⟩, isRest, isLines⟩
      cases isLines
      rw [List.forall_mem_cons]
      exact ⟨linePlain, ih (fun b member => absurd member List.not_mem_nil) isRest⟩
  | case4 line b text _ isPlain ih =>
      apply ih (linePlain.append _) isRead
      simpa [Plain] using isPlain
  | case5 => contradiction

/-- The characters of a token. -/
def IsTokenByte (b : UInt8) : Prop :=
  (48 ≤ b ∧ b ≤ 57) ∨ (65 ≤ b ∧ b ≤ 90) ∨ (97 ≤ b ∧ b ≤ 122) ∨
    b ∈ "!#$%&'*+-.^_|~".toList.map Char.toUInt8 ∨ b = 96

instance (b : UInt8) : Decidable (IsTokenByte b) :=
  inferInstanceAs (Decidable (_ ∨ _))

def Token (name : Bytes) : Prop :=
  name ≠ [] ∧ ∀ b ∈ name, IsTokenByte b

instance (name : Bytes) : Decidable (Token name) :=
  haveI := List.decidableBAll IsTokenByte name
  inferInstanceAs (Decidable (_ ∧ _))

/-- A space or a tab. -/
def isBlank (b : UInt8) : Bool :=
  b == 32 || b == 9

/-- A text without the blanks around it. -/
def trim (text : Bytes) : Bytes :=
  (text.dropWhile isBlank).rdropWhile isBlank

/-- The value of a field: bytes of one line, no blank at either end. -/
def FieldValue (value : Bytes) : Prop :=
  Plain value ∧ trim value = value

instance (value : Bytes) : Decidable (FieldValue value) :=
  inferInstanceAs (Decidable (_ ∧ _))

/-- A name and a value that fit into a field line. -/
def WellFormed (field : Bytes × Bytes) : Prop :=
  Token field.1 ∧ FieldValue field.2

instance (field : Bytes × Bytes) : Decidable (WellFormed field) :=
  inferInstanceAs (Decidable (_ ∧ _))

/-- The line of a field. -/
def fieldLine (field : Bytes × Bytes) : Bytes :=
  field.1 ++ [58, 32] ++ field.2

/-- The name and the value of a field line. -/
def readField (line : Bytes) : Option (Bytes × Bytes) :=
  match line.dropWhile (· != 58) with
  | [] => none
  | _ :: value =>
      if Token (line.takeWhile (· != 58)) then some (line.takeWhile (· != 58), trim value) else none

variable {field : Bytes × Bytes}

theorem trim_trim (text : Bytes) : trim (trim text) = trim text := by
  by_cases isEmpty : trim text = []
  · rw [isEmpty]
    rfl
  · exact Stripping.strip_eq_self (Stripping.bare_strip isEmpty)

theorem trim_subset (text : Bytes) : trim text ⊆ text :=
  fun _ member => (List.dropWhile_suffix _).subset ((List.rdropWhile_prefix ..).subset member)

theorem trim_eq_self (noBlank : ∀ b ∈ text, ¬ isBlank b) : trim text = text := by
  cases text with
  | nil => rfl
  | cons b text =>
      exact Stripping.strip_eq_self (Stripping.Bare.of_forall (List.cons_ne_nil b text) noBlank)

theorem trim_append {before after : Bytes} (areBefore : ∀ b ∈ before, isBlank b)
    (areAfter : ∀ b ∈ after, isBlank b) (notEmpty : text ≠ []) (isTrimmed : trim text = text) :
    trim (before ++ text ++ after) = text := by
  have some : trim text ≠ [] := isTrimmed.symm ▸ notEmpty
  have bare := Stripping.bare_strip some
  change Stripping.Bare isBlank (trim text) at bare
  rw [isTrimmed] at bare
  have isStripped := Stripping.strip_append bare before after
  rw [List.dropWhile_eq_nil_iff.mpr areBefore, List.rdropWhile_eq_nil_iff.mpr areAfter,
    List.nil_append, List.append_nil] at isStripped
  exact isStripped

theorem exists_trim (text : Bytes) : ∃ before after, text = before ++ trim text ++ after ∧
    (∀ b ∈ before, isBlank b) ∧ ∀ b ∈ after, isBlank b :=
  ⟨_, _, (Stripping.append_strip text).symm, fun _ member => List.mem_takeWhile_imp member,
    fun _ member => List.mem_rtakeWhile_imp member⟩

theorem notColon_of_isTokenByte {b : UInt8} (isToken : IsTokenByte b) : b ≠ 58 := by
  rintro rfl
  exact absurd isToken (by decide)

theorem isPlain_of_isTokenByte {b : UInt8} (isToken : IsTokenByte b) : IsPlain b := by
  constructor
  · rintro rfl
    exact absurd isToken (by decide)
  constructor <;>
  · rintro rfl
    exact absurd isToken (by decide)

theorem readField_fieldLine (wellFormed : WellFormed field) :
    readField (fieldLine field) = some field := by
  rcases field with ⟨name, value⟩
  rcases wellFormed with ⟨isToken, -, isTrimmed⟩
  have noColon : ∀ b ∈ name, (b != 58) = true :=
    fun b member => bne_iff_ne.mpr (notColon_of_isTokenByte (isToken.2 b member))
  have isLine : fieldLine (name, value) = name ++ 58 :: 32 :: value := by simp [fieldLine]
  have isName : (fieldLine (name, value)).takeWhile (· != 58) = name := by
    rw [isLine, List.takeWhile_append_of_pos noColon]
    simp
  have isRest : (fieldLine (name, value)).dropWhile (· != 58) = 58 :: 32 :: value := by
    rw [isLine, List.dropWhile_append_of_pos noColon]
    simp
  have isBlankFirst : trim (32 :: value) = value := by
    rw [trim, List.dropWhile_cons_of_pos rfl]
    exact isTrimmed
  rw [readField, isRest, isName]
  show (if Token name then some (name, trim (32 :: value)) else none) = _
  rw [if_pos isToken, isBlankFirst]

theorem wellFormed_of_readField (plain : Plain line) (isRead : readField line = some field) :
    WellFormed field := by
  rw [readField] at isRead
  split at isRead
  next => contradiction
  next first value isRest =>
    split at isRead
    next isToken =>
      cases isRead
      have inLine : value ⊆ line := by
        intro b member
        apply (List.dropWhile_suffix (· != 58)).subset
        rw [isRest]
        exact .tail _ member
      exact ⟨isToken, fun b member => plain b (inLine (trim_subset value member)), trim_trim value⟩
    next => contradiction

theorem exists_of_readField (isRead : readField line = some field) :
    ∃ value, line = field.1 ++ 58 :: value ∧
      58 ∉ field.1 ∧ trim value = field.2 := by
  rw [readField] at isRead
  split at isRead
  next => contradiction
  next first value isRest =>
    have isColon : first = 58 := by
      have isHead := List.head?_dropWhile_not (· != 58) line
      rw [isRest] at isHead
      simpa using isHead
    split at isRead
    next =>
      cases isRead
      have isSplit := List.takeWhile_append_dropWhile (p := (· != 58)) (l := line)
      rw [isRest, isColon] at isSplit
      have notInside : 58 ∉ line.takeWhile (· != 58) :=
        fun member => absurd (List.mem_takeWhile_imp member) (by decide)
      exact ⟨value, isSplit.symm, notInside, rfl⟩
    next => contradiction

theorem plain_fieldLine (wellFormed : WellFormed field) : Plain (fieldLine field) := by
  apply Plain.append _ wellFormed.2.1
  apply Plain.append
  · exact fun b member => isPlain_of_isTokenByte (wellFormed.1.2 b member)
  · decide

theorem fieldLine_ne_nil (field : Bytes × Bytes) : fieldLine field ≠ [] := by
  simp [fieldLine]

/-- A letter in lower case. -/
def lower (b : UInt8) : UInt8 :=
  if 65 ≤ b ∧ b ≤ 90 then b + 32 else b

/-- A name in any case. -/
def IsNamed (name : Bytes) (text : String) : Prop :=
  name.map lower = text.toList.map Char.toUInt8

instance (name : Bytes) (text : String) : Decidable (IsNamed name text) :=
  inferInstanceAs (Decidable (_ = _))

def IsDigit (b : UInt8) : Prop :=
  48 ≤ b ∧ b ≤ 57

instance (b : UInt8) : Decidable (IsDigit b) :=
  inferInstanceAs (Decidable (_ ∧ _))

/-- The number that digits stand for. -/
def number (digits : Bytes) : Nat :=
  digits.foldl (fun value b => value * 10 + (b.toNat - 48)) 0

/-- The number of a text that is nothing but digits. -/
def readNumber (text : Bytes) : Option Nat :=
  haveI := List.decidableBAll IsDigit text
  if text ≠ [] ∧ ∀ b ∈ text, IsDigit b then some (number text) else none

/-- The fields of a message say that so many bytes are its body: all lengths agree, and no other
coding of the body is named. -/
def Framed (fields : List (Bytes × Bytes)) (size : Nat) : Prop :=
  (∃ field ∈ fields, IsNamed field.1 "content-length") ∧
    ∀ field ∈ fields, ¬ IsNamed field.1 "transfer-encoding" ∧
      (IsNamed field.1 "content-length" → readNumber field.2 = some size)

instance (fields : List (Bytes × Bytes)) (size : Nat) : Decidable (Framed fields size) :=
  inferInstanceAs (Decidable (_ ∧ _))

/-- A response: its status, its fields in their order, and its body. -/
structure Response where
  status : Nat
  fields : List (Bytes × Bytes)
  body : Bytes
  deriving DecidableEq, Repr

/-- The status of a status line. -/
def readStatusLine (line : Bytes) : Option Nat :=
  if line.take 9 = "HTTP/1.1 ".toList.map Char.toUInt8 then
    match line.drop 9 with
    | a :: b :: c :: 32 :: _ => readNumber [a, b, c]
    | _ => none
  else none

/-- The fields of lines. -/
def readFields : List Bytes → Option (List (Bytes × Bytes))
  | [] => some []
  | line :: lines =>
      match readField line, readFields lines with
      | some field, some fields => some (field :: fields)
      | _, _ => none

/-- The head of such a response is all of it, whatever its fields say. -/
def Bodyless (status : Nat) : Prop :=
  status < 200 ∨ status = 204 ∨ status = 304

instance (status : Nat) : Decidable (Bodyless status) :=
  inferInstanceAs (Decidable (_ ∨ _))

/-- Bytes that are one response to a request other than HEAD and CONNECT, and nothing more. -/
def readResponse (bytes : Bytes) : Option Response :=
  match readHead [] bytes with
  | some (statusLine :: lines, body) =>
      match readStatusLine statusLine, readFields lines with
      | some status, some fields =>
          if (Bodyless status ∧ body = []) ∨ (¬ Bodyless status ∧ Framed fields body.length) then
            some ⟨status, fields, body⟩
          else none
      | _, _ => none
  | _ => none

variable {fields : List (Bytes × Bytes)}

theorem readFields_fieldLine (wellFormed : ∀ field ∈ fields, WellFormed field) :
    readFields (fields.map fieldLine) = some fields := by
  induction fields with
  | nil => rfl
  | cons field fields ih =>
      rw [List.forall_mem_cons] at wellFormed
      simp [readFields, readField_fieldLine wellFormed.1, ih wellFormed.2]

theorem wellFormed_of_readFields (plain : ∀ line ∈ lines, Plain line)
    (isRead : readFields lines = some fields) : ∀ field ∈ fields, WellFormed field := by
  induction lines generalizing fields with
  | nil =>
      cases isRead
      exact fun field member => absurd member List.not_mem_nil
  | cons line lines ih =>
      rw [List.forall_mem_cons] at plain
      rw [readFields] at isRead
      split at isRead
      next first others isFirst areOthers =>
        cases isRead
        rw [List.forall_mem_cons]
        exact ⟨wellFormed_of_readField plain.1 isFirst, ih plain.2 areOthers⟩
      next => contradiction

/-- The bytes of a status line, well-formed fields and a body are one response when the body is
what status and fields say. -/
theorem readResponse_headText {statusLine : Bytes} {status : Nat} (plain : Plain statusLine)
    (isStatus : readStatusLine statusLine = some status)
    (wellFormed : ∀ field ∈ fields, WellFormed field) (body : Bytes) :
    readResponse (headText (statusLine :: fields.map fieldLine) ++ body) =
      if (Bodyless status ∧ body = []) ∨ (¬ Bodyless status ∧ Framed fields body.length) then
        some ⟨status, fields, body⟩
      else none := by
  have notEmpty : statusLine ≠ [] := by
    rintro rfl
    have isNone : readStatusLine [] = none := by decide
    rw [isNone] at isStatus
    contradiction
  have linesPlain : ∀ line ∈ statusLine :: fields.map fieldLine, Plain line ∧ line ≠ [] := by
    rw [List.forall_mem_cons, List.forall_mem_map]
    exact ⟨⟨plain, notEmpty⟩, fun field member =>
      ⟨plain_fieldLine (wellFormed field member), fieldLine_ne_nil field⟩⟩
  simp only [readResponse, readHead_headText linesPlain, isStatus, readFields_fieldLine wellFormed]

theorem wellFormed_of_readResponse {bytes : Bytes} {response : Response}
    (isRead : readResponse bytes = some response) :
    ∀ field ∈ response.fields, WellFormed field := by
  rw [readResponse] at isRead
  split at isRead
  next statusLine lines body isHead =>
    split at isRead
    next status fields _ areFields =>
      split at isRead
      next =>
        cases isRead
        have plain := plain_of_readHead (fun b member => absurd member List.not_mem_nil) isHead
        exact wellFormed_of_readFields (fun line member => plain line (.tail _ member)) areFields
      next => contradiction
    next => contradiction
  next => contradiction

end Messages
