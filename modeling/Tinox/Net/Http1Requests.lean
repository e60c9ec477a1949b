import Tinox.Runtime.JsonTexts
import Tinox.Runtime.Substrings
import Tinox.Net.Messages
import Tinox.Net.Http2Frames
import Tinox.Data.Lines

/-!
# The reader of requests of HTTP/1.1

`conn_read_request` collects the results of `recv` until a request is complete and hands its
buffer to `tinox_handle_one`, for one request after the other of a connection.  It keeps no byte
for the next request.
-/

namespace Tinox.Net.Http1

open Tinox.Runtime Messages

/-- The results of `recv` that are still to come; behind the last one the peer has closed.  The
buffer grows as needed, so that a result may have any size. -/
abbrev Results := List CString

/-- The white space of `isspace`. -/
def isSpace (c : UInt8) : Bool :=
  c == 32 || (9 ≤ c && c ≤ 13)

/-- `atol`, which stays within 64 bits. -/
def atol (s : CString) : Int :=
  let value (digits : CString) : Int :=
    number (digits.takeWhile fun c => decide (Messages.IsDigit c))
  let s := s.dropWhile isSpace
  let result :=
    if s.head? = some 45 then - value s.tail
    else if s.head? = some 43 then value s.tail
    else value s
  max (-2 ^ 63) (min (2 ^ 63 - 1) result)

/-- `TINOX_MAX_BODY`. -/
def maxBody : Int :=
  4 * 1024 * 1024

/-- The comparisons with `Content-Length:`, each letter in either case. -/
def isContentLength (s : CString) : Bool :=
  (s.take 15).map lower == literal "content-length:"

/-- The line `Content-Length`: the lines behind the first one are tried in turn. -/
def contentLengthLine : CString → Option CString
  | [] => none
  | c :: s => if c = 10 ∧ isContentLength s then some s else contentLengthLine s

/-- The loop for the body.  It asks for the bytes that are missing, so that no result is longer;
`none` stands for results that `recv` cannot have. -/
def readBody (buf : CString) (total : Int) : Results → Option (CString × Results)
  | [] => some (buf, [])
  | result :: results =>
      if (buf.length : Int) < total then
        if total < (buf ++ result).length then none
        else if result = [] then some (buf, results)
        else readBody (buf ++ result) total results
      else some (buf, result :: results)

/-- `conn_read_request` once the end of the head is found. -/
def readRest (buf : CString) (headEnd : Nat) (results : Results) : Option (CString × Results) :=
  match contentLengthLine (cString buf) with
  | none => some (buf, results)
  | some cl =>
      let bodyLen := atol (cl.drop 15)
      let bodyLen := if bodyLen < 0 ∨ maxBody < bodyLen then maxBody else bodyLen
      readBody buf (headEnd + 4 + bodyLen) results

/-- `conn_read_request`, with what its buffer holds already. -/
def connReadRequest (buf : CString) : Results → Option (CString × Results)
  | [] => some (buf, [])
  | result :: results =>
      if result = [] then some (buf, results)
      else
        match strstr (literal "\r\n\r\n") (cString (buf ++ result)) with
        | none => connReadRequest (buf ++ result) results
        | some headEnd => readRest (buf ++ result) headEnd results

/-- `normalize_header_key`; `capNext` is `cap_next`. -/
def normalizeHeaderKey (capNext : Bool) : CString → CString
  | [] => []
  | k :: key =>
      if k = 45 then k :: normalizeHeaderKey true key
      else if capNext then (if 97 ≤ k ∧ k ≤ 122 then k - 32 else k) :: normalizeHeaderKey false key
      else lower k :: normalizeHeaderKey false key

/-- The lines that `tinox_handle_one` takes for headers: those behind the first one, as long as
they end in a newline and are not empty. -/
def headerLines (raw : CString) : List CString :=
  (raw.splitOn 10).tail.dropLast.takeWhile fun line => !(line.isEmpty || line.head? == some 13)

/-- The key of a header line, and its value without the spaces around it. -/
def parseHeader (line : CString) : Option (CString × CString) :=
  match line.dropWhile (· != 58) with
  | [] => none
  | _ :: value =>
      some (normalizeHeaderKey true (line.takeWhile (· != 58)),
        (value.dropWhile (· == 32)).rdropWhile fun c => c == 13 || c == 32)

/-- `req_close`. -/
def reqClose (raw : CString) : Bool :=
  (headerLines raw).any fun line =>
    parseHeader line == some (literal "Connection", literal "close")

/-- A connection: the requests that `tinox_handle_one` is handed until it is closed. -/
inductive Handed : Results → List CString → Prop
  | closed {results rest : Results} {buf : CString}
      (isRead : connReadRequest [] results = some (buf, rest)) (isEmpty : cString buf = []) :
      Handed results []
  | last {results rest : Results} {buf : CString}
      (isRead : connReadRequest [] results = some (buf, rest)) (notEmpty : cString buf ≠ [])
      (closes : reqClose (cString buf)) : Handed results [cString buf]
  | next {results rest : Results} {buf : CString} {requests : List CString}
      (isRead : connReadRequest [] results = some (buf, rest)) (notEmpty : cString buf ≠ [])
      (keepsAlive : ¬ reqClose (cString buf)) (later : Handed rest requests) :
      Handed results (cString buf :: requests)

/-- A well-formed request: its lines, and a body of the length that its fields state or none. -/
structure Request where
  requestLine : CString
  lines : List CString
  body : CString
  linePlain : Plain requestLine
  lineNotEmpty : requestLine ≠ []
  linesPlain : ∀ line ∈ lines, Plain line
  areFields : ∀ line ∈ lines, (readField line).isSome
  within : (body.length : Int) ≤ maxBody
  framed : Framed (lines.filterMap readField) body.length ∨
    (body = [] ∧ ∀ field ∈ lines.filterMap readField,
      ¬ IsNamed field.1 "content-length" ∧ ¬ IsNamed field.1 "transfer-encoding")

namespace Request

def head (request : Request) : CString :=
  headText (request.requestLine :: request.lines)

/-- The bytes of a request on the wire. -/
def bytes (request : Request) : CString :=
  request.head ++ request.body

/-- No field asks for the end of the connection. -/
def KeepsAlive (request : Request) : Prop :=
  ∀ field ∈ request.lines.filterMap readField,
    ¬ (IsNamed field.1 "connection" ∧ field.2 = literal "close")

end Request

/-- No result of `recv` holds bytes of two requests: the results fall into groups, one for each
request. -/
def Apart (requests : List Request) (results : Results) : Prop :=
  ∃ groups : List Results, groups.flatten = results ∧
    groups.map List.flatten = requests.map Request.bytes

/-! ## What is read of a connection -/

variable {buf more : CString} {results : Results} {lines : List CString}

theorem readBody_append {buf' : CString} {total : Int} {rest : Results}
    (notEmpty : ∀ result ∈ results, result ≠ [])
    (isRead : readBody buf total results = some (buf', rest)) :
    ∃ used, results = used ++ rest ∧ buf' = buf ++ used.flatten := by
  induction results generalizing buf with
  | nil =>
      cases isRead
      exact ⟨[], by simp⟩
  | cons result results ih =>
      rw [List.forall_mem_cons] at notEmpty
      rw [readBody, if_neg notEmpty.1] at isRead
      split at isRead
      next =>
        split at isRead
        next => contradiction
        next =>
          rcases ih notEmpty.2 isRead with ⟨used, isSplit, isBuffer⟩
          exact ⟨result :: used, by simp [isSplit], by simp [isBuffer]⟩
      next =>
        cases isRead
        exact ⟨[], by simp⟩

theorem connReadRequest_append {buf' : CString} {rest : Results}
    (notEmpty : ∀ result ∈ results, result ≠ [])
    (isRead : connReadRequest buf results = some (buf', rest)) :
    ∃ used, results = used ++ rest ∧ buf' = buf ++ used.flatten := by
  induction results generalizing buf with
  | nil =>
      cases isRead
      exact ⟨[], by simp⟩
  | cons result results ih =>
      rw [List.forall_mem_cons] at notEmpty
      rw [connReadRequest, if_neg notEmpty.1] at isRead
      split at isRead
      next =>
        rcases ih notEmpty.2 isRead with ⟨used, isSplit, isBuffer⟩
        exact ⟨result :: used, by simp [isSplit], by simp [isBuffer]⟩
      next =>
        rw [readRest] at isRead
        split at isRead
        next =>
          cases isRead
          exact ⟨[result], by simp⟩
        next =>
          rcases readBody_append notEmpty.2 isRead with ⟨used, isSplit, isBuffer⟩
          exact ⟨result :: used, by simp [isSplit], by simp [isBuffer]⟩

theorem cString_append (nulFree : NulFree buf) (more : CString) :
    cString (buf ++ more) = buf ++ cString more := by
  rw [cString, List.takeWhile_append_of_pos]
  · rfl
  · intro b member
    rw [bne_iff_ne]
    rintro rfl
    exact nulFree member

theorem nulFree_cString (buf : CString) : NulFree (cString buf) := by
  intro member
  have notZero := List.mem_takeWhile_imp member
  contradiction

theorem nulFree_headText (plain : ∀ line ∈ lines, Plain line) : NulFree (headText lines) := by
  have ofCrlf : NulFree crlf := by
    rw [NulFree]
    decide
  intro member
  rw [headText, linesText] at member
  rcases List.mem_append.mp member with inLines | inEnd
  · rcases List.mem_flatMap.mp inLines with ⟨line, isLine, inLine⟩
    rcases List.mem_append.mp inLine with inText | inCrlf
    · exact (plain line isLine 0 inText).2.2 rfl
    · exact ofCrlf inCrlf
  · exact ofCrlf inEnd

/-- A string within bytes that go on with no zero byte is all of them. -/
theorem eq_of_cString {first rest : CString} (isStream : buf ++ more = first ++ rest)
    (isString : cString buf = first) (goesOn : rest.head? ≠ some 0) :
    buf = first ∧ more = rest := by
  have isPrefix : first <+: buf := by
    rw [← isString]
    exact List.takeWhile_prefix _
  rcases isPrefix with ⟨extra, isSplit⟩
  have isRest : extra ++ more = rest := by
    rw [← isSplit, List.append_assoc] at isStream
    exact List.append_cancel_left isStream
  have isNone : extra = [] := by
    by_contra notEmpty
    rcases List.exists_cons_of_ne_nil notEmpty with ⟨b, others, isExtra⟩
    have nulFree : NulFree first := by
      rw [← isString]
      exact nulFree_cString buf
    rw [← isSplit, cString_append nulFree, List.append_right_eq_self] at isString
    rw [isExtra, cString, List.takeWhile_cons] at isString
    split at isString
    next => contradiction
    next isZero =>
      apply goesOn
      rw [← isRest, isExtra]
      simpa using isZero
  rw [isNone] at isSplit isRest
  simp only [List.append_nil, List.nil_append] at isSplit isRest
  exact ⟨isSplit.symm, isRest⟩

variable {line : CString}

theorem emptyLine_eq : literal "\r\n\r\n" = [13, 10, 13, 10] := by
  decide

theorem strstr_plain {piece : CString} (plain : Plain piece) (s : CString) :
    strstr (literal "\r\n\r\n") (piece ++ s) =
      (strstr (literal "\r\n\r\n") s).map (· + piece.length) := by
  rw [emptyLine_eq]
  exact strstr_free (fun member => (plain 13 member).1 rfl) s

theorem strstr_head (plain : Plain line) (others : ∀ l ∈ lines, Plain l ∧ l ≠ []) (more : CString) :
    strstr (literal "\r\n\r\n") (headText (line :: lines) ++ more) =
      some (line.length + (linesText lines).length) := by
  induction lines generalizing line with
  | nil =>
      have isText : headText [line] ++ more = line ++ ([13, 10, 13, 10] ++ more) := by
        simp [headText, linesText, crlf]
      have isHere : strstr (literal "\r\n\r\n") ([13, 10, 13, 10] ++ more) = some 0 := by
        rw [emptyLine_eq]
        rfl
      rw [isText, strstr_plain plain, isHere]
      simp [linesText]
  | cons next lines ih =>
      rw [List.forall_mem_cons] at others
      rcases others with ⟨⟨nextPlain, notEmpty⟩, others⟩
      rcases List.exists_cons_of_ne_nil notEmpty with ⟨c, rest, isNext⟩
      have isText : headText (line :: next :: lines) ++ more =
          line ++ (13 :: 10 :: (headText (next :: lines) ++ more)) := by
        simp [headText, linesText, crlf]
      have notCr : c ≠ 13 := (nextPlain c (by simp [isNext])).1
      have notHere : ¬ (literal "\r\n\r\n").isPrefixOf
          (13 :: 10 :: (headText (next :: lines) ++ more)) := by
        rw [emptyLine_eq, isNext]
        simp [headText, linesText, Ne.symm notCr]
      have notNext : ¬ (literal "\r\n\r\n").isPrefixOf
          (10 :: (headText (next :: lines) ++ more)) := by
        rw [emptyLine_eq]
        simp
      rw [isText, strstr_plain plain, strstr, if_neg notHere, strstr, if_neg notNext,
        ih nextPlain others]
      simp only [Option.map_some, linesText_cons, List.length_append, crlf, List.length_cons,
        List.length_nil]
      congr 1
      omega

theorem strstr_before (plain : Plain line) (others : ∀ l ∈ lines, Plain l ∧ l ≠ []) {part : CString}
    (isSplit : part ++ more = headText (line :: lines)) (before : more ≠ []) :
    strstr (literal "\r\n\r\n") part = none := by
  by_contra found
  rcases Option.ne_none_iff_exists'.mp found with ⟨k, isFound⟩
  have bound := strstr_bound isFound
  have isEnd := strstr_head plain others []
  rw [List.append_nil, ← isSplit, strstr_append isFound] at isEnd
  have isLength := congrArg List.length isSplit
  have positive := List.length_pos_iff.mpr before
  simp only [headText, linesText_cons, List.length_append, crlf, List.length_cons,
    List.length_nil] at isLength
  rw [emptyLine_eq, Option.some.inj isEnd] at bound
  simp only [List.length_cons, List.length_nil] at bound
  omega

/-! ## The length of the body -/

theorem lower_eq_colon {c : UInt8} (isColon : lower c = 58) : c = 58 := by
  rw [lower] at isColon
  split at isColon
  next isUpper =>
    rcases isUpper with ⟨low, high⟩
    rw [UInt8.le_iff_toNat_le] at low high
    have sum : (c + 32).toNat = c.toNat + 32 := by
      rw [UInt8.toNat_add]
      exact Nat.mod_eq_of_lt (Nat.lt_of_le_of_lt (Nat.add_le_add_right high 32) (by decide))
    rw [isColon] at sum
    change 58 = c.toNat + 32 at sum
    change 65 ≤ c.toNat at low
    omega
  next => exact isColon

/-- A key with a colon behind it is found exactly where the name in front of the first colon is
this key. -/
theorem take_lower_iff {key name : CString} (keyNoColon : 58 ∉ key) (nameNoColon : 58 ∉ name)
    (rest : CString) :
    ((name ++ 58 :: rest).take (key.length + 1)).map lower = key ++ [58] ↔
      name.map lower = key := by
  induction name generalizing key with
  | nil =>
      cases key with
      | nil => simp [lower]
      | cons k key =>
          have notColon : (58 : UInt8) ≠ k := fun same => keyNoColon (by simp [same])
          have isLower : lower 58 = 58 := rfl
          simp [isLower, notColon]
  | cons c name ih =>
      have notColon : lower c ≠ 58 := fun same => nameNoColon (by simp [lower_eq_colon same])
      cases key with
      | nil => simpa using notColon
      | cons k key =>
          have keyNoColon' : 58 ∉ key := fun member => keyNoColon (.tail _ member)
          have nameNoColon' : 58 ∉ name := fun member => nameNoColon (.tail _ member)
          simp [← ih keyNoColon' nameNoColon']

theorem isContentLength_iff {field : CString × CString} (isRead : readField line = some field)
    (rest : CString) :
    isContentLength (line ++ rest) = true ↔ IsNamed field.1 "content-length" := by
  rcases exists_of_readField isRead with ⟨value, rfl, noColon, -⟩
  have keyNoColon : 58 ∉ literal "content-length" := by decide
  have isKey : literal "content-length:" = literal "content-length" ++ [58] := by decide
  have isLength : (literal "content-length").length = 14 := by decide
  have isFound := take_lower_iff keyNoColon noColon (value ++ rest)
  rw [isLength] at isFound
  rw [isContentLength, beq_iff_eq, isKey, List.append_assoc, List.cons_append, isFound]
  rfl

theorem dropWhile_blanks {blanks : CString} (areBlank : ∀ b ∈ blanks, isBlank b)
    (rest : CString) : (blanks ++ rest).dropWhile isSpace = rest.dropWhile isSpace := by
  apply List.dropWhile_append_of_pos
  intro b member
  have isBlank := areBlank b member
  rw [Messages.isBlank, Bool.or_eq_true, beq_iff_eq, beq_iff_eq] at isBlank
  rcases isBlank with rfl | rfl <;> rfl

theorem notSpace_of_isDigit {b : UInt8} (isDigit : Messages.IsDigit b) : isSpace b = false := by
  rw [← Bool.not_eq_true]
  intro isSpaceByte
  rw [isSpace, Bool.or_eq_true, beq_iff_eq, Bool.and_eq_true, decide_eq_true_iff,
    decide_eq_true_iff] at isSpaceByte
  rcases isSpaceByte with rfl | ⟨-, high⟩
  · exact absurd isDigit (by decide)
  · exact absurd (UInt8.le_trans isDigit.1 high) (by decide)

theorem notDigit_of_isBlank {b : UInt8} (blank : Messages.isBlank b) : ¬ Messages.IsDigit b := by
  rw [Messages.isBlank, Bool.or_eq_true, beq_iff_eq, beq_iff_eq] at blank
  rcases blank with rfl | rfl <;> decide

theorem atol_number {text : CString} {n : Nat} (isNumber : readNumber (trim text) = some n)
    (small : n < 2 ^ 63) (rest : CString) : atol (text ++ crlf ++ rest) = n := by
  rcases exists_trim text with ⟨before, after, isText, areBefore, areAfter⟩
  rw [readNumber, Option.ite_none_right_eq_some] at isNumber
  rcases isNumber with ⟨⟨notEmpty, areDigits⟩, isNumber⟩
  rcases List.exists_cons_of_ne_nil notEmpty with ⟨d, digits, isDigits⟩
  have first : Messages.IsDigit d := areDigits d (by simp [isDigits])
  have isStart : (text ++ crlf ++ rest).dropWhile isSpace =
      trim text ++ (after ++ crlf ++ rest) := by
    have isSplit : text ++ crlf ++ rest = before ++ (trim text ++ (after ++ crlf ++ rest)) := by
      conv_lhs => rw [isText]
      simp only [List.append_assoc]
    rw [isSplit, dropWhile_blanks areBefore, isDigits, List.cons_append,
      List.dropWhile_cons_of_neg (by simp [notSpace_of_isDigit first])]
  have isStop : (after ++ crlf ++ rest).takeWhile (fun c => decide (Messages.IsDigit c)) = [] := by
    cases after with
    | nil => rfl
    | cons b after =>
        have notDigit := notDigit_of_isBlank (areAfter b (List.mem_cons_self ..))
        rw [List.cons_append, List.cons_append,
          List.takeWhile_cons_of_neg (by simpa using notDigit)]
  have isTaken : (trim text ++ (after ++ crlf ++ rest)).takeWhile
      (fun c => decide (Messages.IsDigit c)) = trim text := by
    rw [List.takeWhile_append_of_pos fun b member => decide_eq_true (areDigits b member), isStop,
      List.append_nil]
  have isHead : (trim text ++ (after ++ crlf ++ rest)).head? = some d := by
    rw [isDigits]
    rfl
  have noMinus : ¬ some d = some (45 : UInt8) := by
    rintro ⟨⟩
    exact absurd first (by decide)
  have noPlus : ¬ some d = some (43 : UInt8) := by
    rintro ⟨⟩
    exact absurd first (by decide)
  simp only [atol, isStart, isHead, if_neg noMinus, if_neg noPlus, isTaken,
    Option.some.inj isNumber]
  omega

theorem contentLengthLine_piece {piece : CString} (noNewline : 10 ∉ piece) (s : CString) :
    contentLengthLine (piece ++ s) = contentLengthLine s := by
  induction piece with
  | nil => rfl
  | cons c piece ih =>
      rw [List.mem_cons, not_or] at noNewline
      rw [List.cons_append, contentLengthLine, if_neg fun isHere => noNewline.1 isHere.1.symm,
        ih noNewline.2]

theorem contentLengthLine_line (plain : Plain line) (s : CString) :
    contentLengthLine (line ++ crlf ++ s) = contentLengthLine (10 :: s) := by
  have isSplit : line ++ crlf ++ s = (line ++ [13]) ++ 10 :: s := by simp [crlf]
  rw [isSplit, contentLengthLine_piece]
  intro member
  rcases List.mem_append.mp member with inLine | isEnd
  · exact (plain 10 inLine).2.1 rfl
  · exact absurd isEnd (by decide)

theorem contentLengthLine_none (plain : ∀ line ∈ lines, Plain line)
    (noLength : ∀ line ∈ lines, ∀ rest, ¬ isContentLength (line ++ rest)) :
    contentLengthLine (10 :: (linesText lines ++ crlf)) = none := by
  induction lines with
  | nil => decide
  | cons line lines ih =>
      rw [List.forall_mem_cons] at plain noLength
      have notHere : ¬ isContentLength (linesText (line :: lines) ++ crlf) := by
        rw [linesText_cons, List.append_assoc, List.append_assoc]
        exact noLength.1 _
      rw [contentLengthLine, if_neg fun isHere => notHere isHere.2, linesText_cons,
        List.append_assoc, contentLengthLine_line plain.1, ih plain.2 noLength.2]

theorem contentLengthLine_some (plain : ∀ line ∈ lines, Plain line)
    (someLength : ∃ line ∈ lines, ∀ rest, isContentLength (line ++ rest)) (more : CString) :
    ∃ line ∈ lines, ∃ rest, isContentLength (line ++ rest) ∧ rest.take 2 = crlf ∧
      contentLengthLine (10 :: (linesText lines ++ more)) = some (line ++ rest) := by
  induction lines with
  | nil =>
      rcases someLength with ⟨line, member, -⟩
      exact absurd member List.not_mem_nil
  | cons line lines ih =>
      rw [List.forall_mem_cons] at plain
      have isText : linesText (line :: lines) ++ more =
          line ++ (crlf ++ (linesText lines ++ more)) := by
        rw [linesText_cons]
        simp only [List.append_assoc]
      rw [isText, contentLengthLine]
      by_cases isHere : isContentLength (line ++ (crlf ++ (linesText lines ++ more)))
      · exact ⟨line, List.mem_cons_self .., _, isHere, rfl, if_pos ⟨rfl, isHere⟩⟩
      · have isLater : ∃ l ∈ lines, ∀ rest, isContentLength (l ++ rest) := by
          rcases someLength with ⟨l, member, isLength⟩
          rcases List.mem_cons.mp member with rfl | isLater
          · exact absurd (isLength _) isHere
          · exact ⟨l, isLater, isLength⟩
        rcases ih plain.2 isLater with ⟨l, member, rest, isLength, isEnd, isFound⟩
        refine ⟨l, .tail _ member, rest, isLength, isEnd, ?_⟩
        rw [if_neg fun found => isHere found.2, ← List.append_assoc, contentLengthLine_line plain.1,
          isFound]

/-! ## Requests in groups of results -/

namespace Request

variable {request : Request}

theorem exists_field (member : line ∈ request.lines) :
    ∃ field, readField line = some field ∧ field ∈ request.lines.filterMap readField := by
  rcases Option.isSome_iff_exists.mp (request.areFields line member) with ⟨field, isRead⟩
  exact ⟨field, isRead, List.mem_filterMap.mpr ⟨line, member, isRead⟩⟩

theorem line_ne_nil (member : line ∈ request.lines) : line ≠ [] := by
  rintro rfl
  have isField := request.areFields [] member
  contradiction

theorem others (request : Request) : ∀ line ∈ request.lines, Plain line ∧ line ≠ [] :=
  fun line member => ⟨request.linesPlain line member, line_ne_nil member⟩

theorem nulFree_head (request : Request) : NulFree request.head :=
  nulFree_headText (List.forall_mem_cons.mpr ⟨request.linePlain, request.linesPlain⟩)

theorem head?_bytes (request : Request) (rest : CString) :
    (request.bytes ++ rest).head? ≠ some 0 := by
  rcases List.exists_cons_of_ne_nil request.lineNotEmpty with ⟨b, others, isLine⟩
  have isPlain : IsPlain b := request.linePlain b (by simp [isLine])
  simp [bytes, head, headText, linesText, isLine, isPlain.2.2]

theorem length_head (request : Request) :
    request.head.length = request.requestLine.length + (linesText request.lines).length + 4 := by
  simp only [head, headText, linesText_cons, List.length_append, crlf, List.length_cons,
    List.length_nil]
  omega

theorem readRest_eq (request : Request) (bodyNulFree : NulFree request.body) {part : CString}
    (isBody : part ++ more = request.body) (results : Results) : readRest (request.head ++ part)
        (request.requestLine.length + (linesText request.lines).length) results =
      readBody (request.head ++ part) request.bytes.length results := by
  have partNulFree : NulFree part := by
    intro member
    apply bodyNulFree
    rw [← isBody]
    exact List.mem_append_left _ member
  have isString : cString (request.head ++ part) = request.head ++ part := by
    rw [cString_append request.nulFree_head, cString_eq_iff.mpr partNulFree]
  have isText : request.head ++ part = request.requestLine ++ crlf ++
      (linesText request.lines ++ (crlf ++ part)) := by
    simp [head, headText, linesText_cons]
  have isLines : contentLengthLine (request.head ++ part) =
      contentLengthLine (10 :: (linesText request.lines ++ (crlf ++ part))) := by
    rw [isText, contentLengthLine_line request.linePlain]
  have isTotal : (request.bytes.length : Int) =
      (request.requestLine.length + (linesText request.lines).length : Nat) + 4 +
        request.body.length := by
    rw [bytes, List.length_append, length_head]
    omega
  rw [readRest, isString, isLines]
  rcases request.framed with ⟨someLength, allLengths⟩ | ⟨noBody, noLength⟩
  · have isLength : ∃ line ∈ request.lines, ∀ rest, isContentLength (line ++ rest) := by
      rcases someLength with ⟨field, member, isNamed⟩
      rcases List.mem_filterMap.mp member with ⟨line, inLines, isRead⟩
      exact ⟨line, inLines, fun rest => (isContentLength_iff isRead rest).mpr isNamed⟩
    rcases contentLengthLine_some request.linesPlain isLength (crlf ++ part) with
      ⟨line, member, rest, isHere, isEnd, isFound⟩
    rcases exists_field member with ⟨field, isRead, inFields⟩
    have isNamed := (isContentLength_iff isRead rest).mp isHere
    have isNumber := (allLengths field inFields).2 isNamed
    rcases exists_of_readField isRead with ⟨value, rfl, -, isTrimmed⟩
    have isValue : (field.1 ++ 58 :: value ++ rest).drop 15 = value ++ crlf ++ rest.drop 2 := by
      have isSplit : rest = crlf ++ rest.drop 2 := by
        rw [← isEnd, List.take_append_drop]
      have nameLength : field.1.length = 14 := by
        have isLower := congrArg List.length isNamed
        rwa [List.length_map] at isLower
      have isText : field.1 ++ 58 :: value ++ rest =
          (field.1 ++ [58]) ++ (value ++ crlf ++ rest.drop 2) := by
        conv_lhs => rw [isSplit]
        simp
      rw [isText]
      exact List.drop_left' (by simp [nameLength])
    have small := request.within
    rw [← isTrimmed] at isNumber
    have isAtol := atol_number isNumber (by rw [maxBody] at small; omega) (rest.drop 2)
    have inRange : ¬ ((request.body.length : Int) < 0 ∨ maxBody < request.body.length) := by
      omega
    rw [isFound]
    simp only [isValue, isAtol, if_neg inRange, isTotal]
  · have noLine : ∀ line ∈ request.lines, ∀ rest, ¬ isContentLength (line ++ rest) := by
      intro line member rest isHere
      rcases exists_field member with ⟨field, isRead, inFields⟩
      exact (noLength field inFields).1 ((isContentLength_iff isRead rest).mp isHere)
    have noPart : part = [] := by
      rw [noBody, List.append_eq_nil_iff] at isBody
      exact isBody.1
    have isNone := contentLengthLine_none request.linesPlain noLine
    rw [noPart, List.append_nil, isNone]
    have isWhole : ¬ ((request.head ++ []).length : Int) < request.bytes.length := by
      simp [bytes, noBody]
    cases results with
    | nil => rfl
    | cons result results => rw [readBody, if_neg isWhole]

theorem readBody_group {total : Nat} {group : Results} (notEmpty : ∀ result ∈ group, result ≠ [])
    (isTotal : (buf ++ group.flatten).length = total) (later : Results) :
    readBody buf total (group ++ later) = some (buf ++ group.flatten, later) := by
  induction group generalizing buf with
  | nil =>
      rw [List.flatten_nil, List.append_nil] at isTotal
      have isDone : ¬ (buf.length : Int) < total := by omega
      cases later with
      | nil => simp [readBody]
      | cons result later => simp [readBody, isDone]
  | cons result group ih =>
      rw [List.forall_mem_cons] at notEmpty
      have positive := List.length_pos_iff.mpr notEmpty.1
      rw [List.flatten_cons, ← List.append_assoc] at isTotal
      have isLength := isTotal
      rw [List.length_append, List.length_append] at isLength
      have missing : (buf.length : Int) < total := by omega
      have fits : ¬ (total : Int) < (buf ++ result).length := by
        rw [List.length_append]
        omega
      rw [List.cons_append, readBody, if_pos missing, if_neg fits, if_neg notEmpty.1,
        ih notEmpty.2 isTotal, List.flatten_cons, List.append_assoc]

theorem connReadRequest_group (request : Request) (bodyNulFree : NulFree request.body)
    {group : Results} (notEmpty : ∀ result ∈ group, result ≠ [])
    (isRequest : buf ++ group.flatten = request.bytes) (inHead : buf.length < request.head.length)
    (later : Results) : connReadRequest buf (group ++ later) = some (request.bytes, later) := by
  induction group generalizing buf with
  | nil =>
      have isLength := congrArg List.length isRequest
      rw [List.flatten_nil, List.append_nil, bytes, List.length_append] at isLength
      omega
  | cons result group ih =>
      rw [List.forall_mem_cons] at notEmpty
      rw [List.flatten_cons, ← List.append_assoc] at isRequest
      rw [List.cons_append, connReadRequest, if_neg notEmpty.1]
      by_cases isShort : (buf ++ result).length < request.head.length
      · have isPrefix : buf ++ result <+: request.head :=
          List.prefix_of_prefix_length_le ⟨_, isRequest⟩ ⟨_, rfl⟩ (Nat.le_of_lt isShort)
        rcases isPrefix with ⟨more, isHead⟩
        have moreLeft : more ≠ [] := by
          rintro rfl
          rw [List.append_nil] at isHead
          exact absurd isShort (by rw [isHead]; exact Nat.lt_irrefl _)
        have nulFree : NulFree (buf ++ result) := by
          intro member
          apply request.nulFree_head
          rw [← isHead]
          exact List.mem_append_left _ member
        rw [cString_eq_iff.mpr nulFree,
          strstr_before request.linePlain request.others isHead moreLeft]
        exact ih notEmpty.2 isRequest isShort
      · have isPrefix : request.head <+: buf ++ result :=
          List.prefix_of_prefix_length_le ⟨_, rfl⟩ ⟨_, isRequest⟩ (Nat.le_of_not_lt isShort)
        rcases isPrefix with ⟨part, isBuffer⟩
        have isBody : part ++ group.flatten = request.body := by
          rw [← isBuffer, bytes, List.append_assoc] at isRequest
          exact List.append_cancel_left isRequest
        have isFound : strstr (literal "\r\n\r\n") (cString (request.head ++ part)) =
            some (request.requestLine.length + (linesText request.lines).length) := by
          rw [cString_append request.nulFree_head]
          exact strstr_head request.linePlain request.others _
        rw [← isBuffer, isFound]
        rw [← isBuffer] at isRequest
        show readRest _ _ _ = _
        rw [readRest_eq request bodyNulFree isBody,
          readBody_group notEmpty.2 (congrArg List.length isRequest), isRequest]

/-! ## Requests that keep the connection -/

set_option maxRecDepth 1024 in
theorem lower_upper (k : UInt8) :
    lower (if 97 ≤ k ∧ k ≤ 122 then k - 32 else k) = lower k ∧ lower (lower k) = lower k := by
  have ofNat : ∀ n : Fin 256,
      lower (if 97 ≤ UInt8.ofNat n ∧ UInt8.ofNat n ≤ 122 then UInt8.ofNat n - 32
          else UInt8.ofNat n) = lower (UInt8.ofNat n) ∧ lower (lower (UInt8.ofNat n)) = lower (UInt8.ofNat n) := by
    decide
  have spec := ofNat ⟨k.toNat, k.toNat_lt⟩
  rwa [UInt8.ofNat_toNat] at spec

theorem lower_normalizeHeaderKey (capNext : Bool) (key : CString) :
    (normalizeHeaderKey capNext key).map lower = key.map lower := by
  induction key generalizing capNext with
  | nil => rfl
  | cons k key ih =>
      rw [normalizeHeaderKey]
      split
      · rw [List.map_cons, ih, List.map_cons]
      · split
        · rw [List.map_cons, ih, List.map_cons, (lower_upper k).1]
        · rw [List.map_cons, ih, List.map_cons, (lower_upper k).2]

theorem headerLines_bytes (request : Request) :
    headerLines request.bytes = request.lines.map (· ++ [13]) := by
  have free : ∀ line ∈ (request.requestLine ++ [13]) :: (request.lines.map (· ++ [13]) ++ [[13]]),
      10 ∉ line := by
    have ofPlain : ∀ {line : CString}, Plain line → 10 ∉ line ++ [13] := by
      intro line plain member
      rcases List.mem_append.mp member with inLine | isEnd
      · exact (plain 10 inLine).2.1 rfl
      · exact absurd isEnd (by decide)
    rw [List.forall_mem_cons, List.forall_mem_append, List.forall_mem_map]
    exact ⟨ofPlain request.linePlain,
      fun line member => ofPlain (request.linesPlain line member), by simp⟩
  have isText : request.bytes =
      (((request.requestLine ++ [13]) :: (request.lines.map (· ++ [13]) ++ [[13]])).flatMap
        fun line => line ++ [10]) ++ request.body := by
    simp [bytes, head, headText, linesText, crlf, List.flatMap_map]
  have taken : ∀ line ∈ request.lines.map (· ++ [13]),
      (!(line.isEmpty || line.head? == some 13)) = true := by
    rw [List.forall_mem_map]
    intro line member
    rcases List.exists_cons_of_ne_nil (line_ne_nil member) with ⟨c, rest, rfl⟩
    have notCr := (request.linesPlain _ member c (List.mem_cons_self ..)).1
    simpa using notCr
  rw [headerLines, isText, Lines.splitOn_flatMap_append free, List.cons_append, List.tail_cons,
    List.dropLast_append_of_ne_nil (List.splitOn_ne_nil 10 request.body), List.append_assoc,
    List.takeWhile_append_of_pos taken]
  simp

/-- What the code takes for the value of a line are the bytes between the spaces. -/
theorem rdropWhile_value {value : CString} (plain : Plain value) :
    ((value ++ [13]).dropWhile (· == 32)).rdropWhile (fun c => c == 13 || c == 32) =
      Stripping.strip (· == 32) value := by
  have stops : ∀ b ∈ [(13 : UInt8)].head?, ¬ b == 32 := by
    rintro b ⟨⟩
    decide
  rw [Stripping.dropWhile_append stops, List.rdropWhile_concat_pos _ _ _ rfl]
  apply Stripping.rdropWhile_congr
  intro b member
  have notCr := (plain b ((List.dropWhile_suffix _).subset member)).1
  rw [beq_eq_false_iff_ne.mpr notCr, Bool.false_or]

/-- A value that the code takes for `close` is this word between blanks. -/
theorem trim_of_close {value : CString} (plain : Plain value)
    (isClose : ((value ++ [13]).dropWhile (· == 32)).rdropWhile (fun c => c == 13 || c == 32) =
      literal "close") : trim value = literal "close" := by
  have blank : ∀ b : UInt8, b == 32 → isBlank b := fun b space => by
    rw [isBlank, space, Bool.true_or]
  have isValue := @Stripping.append_strip _ (· == 32) value
  rw [rdropWhile_value plain] at isClose
  rw [isClose] at isValue
  rw [← isValue]
  exact trim_append (fun b member => blank b (List.mem_takeWhile_imp (p := (· == 32)) member))
    (fun b member => blank b (List.mem_rtakeWhile_imp (p := (· == 32)) member)) (by decide) (by decide)

theorem isClose_of_parseHeader {field : CString × CString} (plain : Plain line)
    (isRead : readField line = some field)
    (isClose : parseHeader (line ++ [13]) = some (literal "Connection", literal "close")) :
    IsNamed field.1 "connection" ∧ field.2 = literal "close" := by
  rcases exists_of_readField isRead with ⟨value, rfl, noColon, isTrimmed⟩
  have isText : field.1 ++ 58 :: value ++ [13] = field.1 ++ 58 :: (value ++ [13]) := by simp
  rcases Lines.split_first noColon (value ++ [13]) with ⟨isName, isRest⟩
  rw [parseHeader, isText, isRest, isName] at isClose
  rcases Prod.mk.inj (Option.some.inj isClose) with ⟨isKey, isValue⟩
  constructor
  · have isLower := lower_normalizeHeaderKey true field.1
    rw [isKey] at isLower
    rw [IsNamed, ← isLower]
    decide
  · rw [← isTrimmed]
    exact trim_of_close (fun b member => plain b (by simp [member])) isValue

theorem not_reqClose (keepsAlive : request.KeepsAlive) : ¬ reqClose request.bytes := by
  rw [reqClose, headerLines_bytes, List.any_map, List.any_eq_true]
  rintro ⟨line, member, isClose⟩
  rcases exists_field member with ⟨field, isRead, inFields⟩
  exact keepsAlive field inFields
    (isClose_of_parseHeader (request.linesPlain line member) isRead (beq_iff_eq.mp isClose))

end Request

/-! ## Exactly the requests that come apart -/

theorem Handed.cons {results : Results} {raw : CString} {raws : List CString}
    (handed : Handed results (raw :: raws)) :
    ∃ buf rest, connReadRequest [] results = some (buf, rest) ∧ cString buf = raw ∧
      (raws = [] ∨ Handed rest raws) := by
  generalize isList : raw :: raws = all at handed
  cases handed with
  | closed => contradiction
  | last isRead =>
      cases isList
      exact ⟨_, _, isRead, rfl, Or.inl rfl⟩
  | next isRead _ _ later =>
      cases isList
      exact ⟨_, _, isRead, rfl, Or.inr later⟩

theorem apart_nil (notEmpty : ∀ result ∈ results, result ≠ []) (isNone : results.flatten = []) :
    Apart [] results := by
  have noResult : results = [] := by
    rw [List.eq_nil_iff_forall_not_mem]
    intro result member
    exact notEmpty result member (List.flatten_eq_nil_iff.mp isNone result member)
  exact ⟨[], noResult.symm, rfl⟩

theorem apart_of_handed {requests : List Request} (notEmpty : ∀ result ∈ results, result ≠ [])
    (isCut : results.flatten = (requests.map Request.bytes).flatten)
    (handed : Handed results (requests.map Request.bytes)) :
    (∀ request ∈ requests, NulFree request.body) ∧ Apart requests results := by
  induction requests generalizing results with
  | nil => exact ⟨List.forall_mem_nil _, apart_nil notEmpty isCut⟩
  | cons request requests ih =>
      rcases handed.cons with ⟨buf, rest, isRead, isString, later⟩
      rcases connReadRequest_append notEmpty isRead with ⟨used, rfl, isBuffer⟩
      have restNotEmpty : ∀ result ∈ rest, result ≠ [] :=
        fun result member => notEmpty result (List.mem_append_right _ member)
      have goesOn : (requests.map Request.bytes).flatten.head? ≠ some 0 := by
        cases requests with
        | nil => simp
        | cons next requests => exact next.head?_bytes _
      rw [List.nil_append] at isBuffer
      rw [List.flatten_append, ← isBuffer, List.map_cons, List.flatten_cons] at isCut
      rcases eq_of_cString isCut isString goesOn with ⟨isRequest, isRest⟩
      have nulFree : NulFree request.bytes := by
        rw [← isString]
        exact nulFree_cString buf
      have bodyNulFree : NulFree request.body :=
        fun member => nulFree (List.mem_append_right _ member)
      have others : (∀ r ∈ requests, NulFree r.body) ∧ Apart requests rest := by
        rcases later with isLast | later
        · rw [List.map_eq_nil_iff] at isLast
          subst isLast
          exact ⟨List.forall_mem_nil _, apart_nil restNotEmpty isRest⟩
        · exact ih restNotEmpty isRest later
      rcases others with ⟨othersNulFree, groups, areResults, areRequests⟩
      constructor
      · rw [List.forall_mem_cons]
        exact ⟨bodyNulFree, othersNulFree⟩
      · refine ⟨used :: groups, by rw [List.flatten_cons, areResults], ?_⟩
        rw [List.map_cons, List.map_cons, areRequests, ← isBuffer, isRequest]

theorem handed_of_apart {requests : List Request}
    (keepAlive : ∀ request ∈ requests.dropLast, request.KeepsAlive)
    (notEmpty : ∀ result ∈ results, result ≠ [])
    (nulFree : ∀ request ∈ requests, NulFree request.body) (apart : Apart requests results) :
    Handed results (requests.map Request.bytes) := by
  induction requests generalizing results with
  | nil =>
      rcases apart with ⟨groups, rfl, isNone⟩
      rw [List.map_nil, List.map_eq_nil_iff] at isNone
      rw [isNone]
      exact .closed rfl rfl
  | cons request requests ih =>
      rcases apart with ⟨groups, rfl, areRequests⟩
      rcases List.map_eq_cons_iff.mp areRequests with ⟨group, groups, rfl, isRequest, areOthers⟩
      rw [List.forall_mem_cons] at nulFree
      rw [List.flatten_cons, List.forall_mem_append] at notEmpty
      have inHead : ([] : CString).length < request.head.length := by
        rw [request.length_head]
        exact Nat.succ_pos _
      have isRead := request.connReadRequest_group nulFree.1 notEmpty.1 isRequest inHead
        groups.flatten
      have isString : cString request.bytes = request.bytes := by
        rw [Request.bytes, cString_append request.nulFree_head, cString_eq_iff.mpr nulFree.1]
      have someBytes : request.bytes ≠ [] := by
        intro isNone
        rw [Request.bytes, List.append_eq_nil_iff] at isNone
        rw [isNone.1] at inHead
        exact absurd inHead (Nat.lt_irrefl _)
      rw [List.flatten_cons, List.map_cons]
      rw [← isString] at someBytes ⊢
      by_cases closes : reqClose (cString request.bytes)
      · cases requests with
        | nil => exact .last isRead someBytes closes
        | cons next requests =>
            rw [isString] at closes
            exact absurd closes (Request.not_reqClose (keepAlive request (List.mem_cons_self ..)))
      · apply Handed.next isRead someBytes closes
        apply ih _ notEmpty.2 nulFree.2 ⟨groups, rfl, areOthers⟩
        intro other member
        apply keepAlive
        cases requests with
        | nil => exact absurd member List.not_mem_nil
        | cons next requests => exact List.mem_cons_of_mem _ member

/-- A connection hands over the requests that were sent exactly when no body has a zero byte and no
result of `recv` holds bytes of two requests. -/
theorem handed_iff_apart {requests : List Request} {results : Results}
    (keepAlive : ∀ request ∈ requests.dropLast, request.KeepsAlive)
    (notEmpty : ∀ result ∈ results, result ≠ [])
    (isCut : results.flatten = (requests.map Request.bytes).flatten) :
    Handed results (requests.map Request.bytes) ↔
      (∀ request ∈ requests, NulFree request.body) ∧ Apart requests results := by
  constructor
  · exact apart_of_handed notEmpty isCut
  · rintro ⟨nulFree, apart⟩
    exact handed_of_apart keepAlive notEmpty nulFree apart

def getRequest : Request where
  requestLine := literal "GET / HTTP/1.1"
  lines := [literal "Host: a"]
  body := []
  linePlain := by decide
  lineNotEmpty := by decide
  linesPlain := by decide
  areFields := by decide
  within := by decide
  framed := by decide

def postRequest : Request where
  requestLine := literal "POST / HTTP/1.1"
  lines := [literal "Host: a", literal "content-length:\t2 "]
  body := literal "hi"
  linePlain := by decide
  lineNotEmpty := by decide
  linesPlain := by decide
  areFields := by decide
  within := by decide
  framed := by decide

theorem handed_iff_apart_twoRequests :
    Handed [postRequest.bytes, getRequest.bytes] ([postRequest, getRequest].map Request.bytes) := by
  have isCut : List.flatten [postRequest.bytes, getRequest.bytes] =
      ([postRequest, getRequest].map Request.bytes).flatten := rfl
  have keepAlive : ∀ request ∈ [postRequest, getRequest].dropLast, request.KeepsAlive := by
    rw [List.dropLast_cons_cons, List.dropLast_singleton, List.forall_mem_singleton,
      Request.KeepsAlive]
    decide
  have nulFree : ∀ request ∈ [postRequest, getRequest], NulFree request.body := by
    simp only [List.forall_mem_cons, NulFree]
    decide
  have apart : Apart [postRequest, getRequest] [postRequest.bytes, getRequest.bytes] :=
    ⟨[[postRequest.bytes], [getRequest.bytes]], rfl, by simp⟩
  exact (handed_iff_apart keepAlive (by decide) isCut).mpr ⟨nulFree, apart⟩

/-- Two requests in one segment are handed over as one. -/
theorem twoRequests_merged :
    Handed [getRequest.bytes ++ getRequest.bytes] [getRequest.bytes ++ getRequest.bytes] ∧
      ¬ Handed [getRequest.bytes ++ getRequest.bytes]
        ([getRequest, getRequest].map Request.bytes) := by
  have isRead : connReadRequest [] [getRequest.bytes ++ getRequest.bytes] =
      some (getRequest.bytes ++ getRequest.bytes, []) := by
    decide
  have isString : cString (getRequest.bytes ++ getRequest.bytes) =
      getRequest.bytes ++ getRequest.bytes := by
    decide
  constructor
  · have handed := Handed.next isRead (by decide) (by decide) (.closed rfl rfl)
    rwa [isString] at handed
  · intro handed
    rcases handed.cons with ⟨buf, rest, isOther, isFirst, -⟩
    rw [isRead] at isOther
    cases isOther
    exact absurd isFirst (by decide)

end Tinox.Net.Http1
