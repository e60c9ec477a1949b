import Tinox.Data.Stripping
import Tinox.Formats.Toml
import Tinox.Net.Http1Requests
import Tinox.Net.Http2Server

/-!
# The parsers of requests of HTTP/1.1

Behind TLS `HttpServer.parseRawRequest` splits the text of a request into lines; without TLS
`tinox_handle_one` scans it in place.  Both fill an `HttpRequest`, whose headers a handler reads
by `HttpRequest.getHeader`.
-/

namespace Tinox.Net.Http1

open Tinox.Runtime Messages
open Formats.Toml (tinoxStringTrim indexOf)

/-- `tinox_string_substring`, from a position that is not negative. -/
def substring (s : CString) (start stop : Nat) : CString :=
  (s.take stop).drop start

/-- `HttpRequest.getHeader`; `keys` are the keys of the headers, in the order in which the map
lists them. -/
def getHeader (request : HttpRequest) (keys : List CString) (name : CString) : CString :=
  match request.headers name with
  | some value => value
  | none =>
      match keys.find? fun key => toLowerCase key == toLowerCase name with
      | some key => (request.headers key).getD []
      | none => []

/-- What the first line says. -/
def takeFirstLine (request : HttpRequest) (firstLine : CString) : HttpRequest :=
  match tinoxStringSplit (literal " ") firstLine with
  | method :: fullPath :: _ =>
      match indexOf fullPath 63 with
      | some qIdx =>
          { request with
            method := method
            path := substring fullPath 0 qIdx
            queryString := substring fullPath (qIdx + 1) fullPath.length }
      | none => { request with method := method, path := fullPath }
  | _ => request

/-- One line of the loop for the headers. -/
def takeLine (headers : StringMap) (line : CString) : StringMap :=
  match indexOf line 58 with
  | some colonIdx =>
      if 0 < colonIdx then
        headers.set (tinoxStringTrim (substring line 0 colonIdx))
          (tinoxStringTrim (substring line (colonIdx + 1) line.length))
      else headers
  | none => headers

/-- The loop for the headers, and the lines that are left behind an empty one. -/
def takeLines (headers : StringMap) : List CString → StringMap × List CString
  | [] => (headers, [])
  | line :: lines =>
      if line.length = 0 then (headers, lines) else takeLines (takeLine headers line) lines

/-- The loop for the body. -/
def joinBody (body : CString) : List CString → CString
  | [] => body
  | line :: lines =>
      joinBody ((if 0 < body.length then body ++ literal "\r\n" else body) ++ line) lines

/-- `HttpServer.parseRawRequest`. -/
def parseRawRequest (raw : CString) : HttpContext :=
  let request : HttpRequest := ⟨[], [], [], StringMap.new, [], StringMap.new⟩
  match tinoxStringSplit (literal "\r\n") raw with
  | [] => ⟨request, HttpResponse.new⟩
  | firstLine :: lines =>
      let request := takeFirstLine request firstLine
      let taken := takeLines request.headers lines
      ⟨{ request with headers := taken.1, body := joinBody [] taken.2 }, HttpResponse.new⟩

/-- The arrays `method` and `path`, for 7 and 255 bytes. -/
def requestLineOf (raw : CString) : CString × CString :=
  match raw.dropWhile (· != 32) with
  | [] => ([], [])
  | _ :: sp =>
      ((raw.takeWhile (· != 32)).take 7,
        (sp.takeWhile fun b => b != 32 && b != 13 && b != 10).take 255)

/-- The loop for the headers, from behind a newline on, and `req_body`. -/
def headerLoop (headers : StringMap) (hdrLine : CString) : StringMap × CString :=
  match hdrLine with
  | [] => (headers, [])
  | c :: rest =>
      if c = 13 then (headers, rest.drop 1)
      else if c = 10 then (headers, rest)
      else
        let eol := (c :: rest).dropWhile (· != 10)
        if eol = [] then (headers, [])
        else
          match parseHeader ((c :: rest).takeWhile (· != 10)) with
          | some (hkey, vstart) => headerLoop (headers.set hkey vstart) eol.tail
          | none => headerLoop headers eol.tail
termination_by hdrLine.length
decreasing_by
  all_goals
    have isShort := List.length_dropWhile_le (· != (10 : UInt8)) (c :: rest)
    rw [List.length_tail, List.length_cons] at *
    omega

variable {Handler : Type}

/-- The request that `tinox_handle_one` fills in, with the parameters of the route that it finds. -/
def handleOneRequest (routes : List (Route Handler)) (raw : CString) : HttpRequest :=
  let method := (requestLineOf raw).1
  let path := (requestLineOf raw).2.takeWhile (· != 63)
  let query := ((requestLineOf raw).2.dropWhile (· != 63)).tail
  let parsed :=
    match raw.dropWhile (· != 10) with
    | [] => (StringMap.new, [])
    | _ :: hdrLine => headerLoop StringMap.new hdrLine
  ⟨method, path, parsed.2, parsed.1, query,
    ((lookupRoute routes method path).map Prod.snd).getD StringMap.new⟩

/-- A name and what stands behind its colon, blanks included. -/
def IsField (field : CString × CString) : Prop :=
  Token field.1 ∧ Plain field.2

instance (field : CString × CString) : Decidable (IsField field) :=
  inferInstanceAs (Decidable (_ ∧ _))

def lineOf (field : CString × CString) : CString :=
  field.1 ++ 58 :: field.2

/-- A well-formed request text: a method and a target of the lengths for which there is room,
fields with different names, and any body. -/
structure RequestText where
  method : CString
  target : CString
  fields : List (CString × CString)
  body : CString
  isMethod : Token method
  methodFits : method.length ≤ 7
  isTarget : Plain target ∧ 32 ∉ target
  targetFits : target.length ≤ 255
  areFields : ∀ field ∈ fields, IsField field
  distinct : (fields.map Prod.fst).Nodup
  nulFree : NulFree body

namespace RequestText

def firstLine (text : RequestText) : CString :=
  text.method ++ [32] ++ text.target ++ [32] ++ literal "HTTP/1.1"

def bytes (text : RequestText) : CString :=
  headText (text.firstLine :: text.fields.map lineOf) ++ text.body

/-- The last field of a name, in any case. -/
def lastNamed (text : RequestText) (name : CString) : Option (CString × CString) :=
  text.fields.reverse.find? fun field => field.1.map lower == name.map lower

end RequestText

/-- The keys of a map, in any order. -/
def Lists (keys : List CString) (headers : StringMap) : Prop :=
  ∀ key, key ∈ keys ↔ (headers key).isSome

/-- Two requests are one to a handler: method, path, query and body, and the value of each header
that it asks for. -/
def SameRequest (request other : HttpRequest) : Prop :=
  request.method = other.method ∧ request.path = other.path ∧
    request.queryString = other.queryString ∧ request.body = other.body ∧
    ∀ keys otherKeys, Lists keys request.headers → Lists otherKeys other.headers →
      ∀ name, getHeader request keys name = getHeader other otherKeys name

theorem tinoxStringSplit_line {line : CString} (plain : Plain line) (s : CString) :
    tinoxStringSplit crlf (line ++ crlf ++ s) = line :: tinoxStringSplit crlf s :=
  tinoxStringSplit_append (fun member => (plain 13 member).1 rfl) s

theorem lineEnd_eq : literal "\r\n" = crlf := by
  decide

theorem joinBody_some {body : CString} (some : body ≠ []) (lines : List CString) :
    joinBody body lines = body ++ lines.flatMap (crlf ++ ·) := by
  induction lines generalizing body with
  | nil => exact (List.append_nil body).symm
  | cons line lines ih =>
      rw [joinBody, if_pos (List.length_pos_iff.mpr some), lineEnd_eq, ih, List.flatMap_cons,
        List.append_assoc, List.append_assoc, List.append_assoc]
      exact List.append_ne_nil_of_left_ne_nil (List.append_ne_nil_of_left_ne_nil some crlf) line

theorem length_joinBody (body : CString) (lines : List CString) :
    (joinBody body lines).length ≤ body.length + (lines.flatMap (crlf ++ ·)).length := by
  induction lines generalizing body with
  | nil => exact Nat.le_add_right _ _
  | cons line lines ih =>
      have bound := ih ((if 0 < body.length then body ++ literal "\r\n" else body) ++ line)
      have atMost : (if 0 < body.length then body ++ literal "\r\n" else body).length ≤
          body.length + crlf.length := by
        split
        · rw [lineEnd_eq, List.length_append]
        · exact Nat.le_add_right _ _
      rw [joinBody]
      rw [List.length_append] at bound
      rw [List.flatMap_cons, List.length_append, List.length_append]
      omega

theorem joinBody_split_iff (body : CString) :
    joinBody [] (tinoxStringSplit crlf body) = body ↔ ¬ crlf <+: body := by
  have some : crlf ≠ [] := List.cons_ne_nil 13 [10]
  constructor
  · rintro isBody ⟨rest, rfl⟩
    have isSplit := tinoxStringSplit_line (fun b member => absurd member List.not_mem_nil) rest
    rcases exists_tinoxStringSplit some rest with ⟨first, others, isRest, isText⟩
    have bound := length_joinBody first others
    have isJoined : joinBody [] (tinoxStringSplit crlf (crlf ++ rest)) = joinBody first others := by
      rw [List.nil_append, isRest] at isSplit
      rw [isSplit]
      rfl
    rw [isJoined] at isBody
    rw [isBody, ← List.length_append, isText, List.length_append] at bound
    exact absurd bound (Nat.not_le.mpr (Nat.lt_add_of_pos_left Nat.two_pos))
  · intro noEnd
    cases isFound : strstr crlf body with
    | none =>
        rw [tinoxStringSplit_none some isFound]
        rfl
    | some found =>
        have isBody := strstr_split isFound
        have notEmpty : body.take found ≠ [] := by
          intro isEmpty
          rw [isEmpty, List.nil_append] at isBody
          exact noEnd ⟨_, isBody⟩
        rcases exists_tinoxStringSplit some (body.drop (found + crlf.length)) with
          ⟨first, others, isRest, isText⟩
        rw [tinoxStringSplit_some some isFound]
        change joinBody (body.take found) _ = body
        rw [joinBody_some notEmpty, isRest, List.flatMap_cons, List.append_assoc, isText,
          ← List.append_assoc, isBody]

/-- The spaces around a value, without the tabs. -/
def stripSpaces (value : CString) : CString :=
  Stripping.strip (· == 32) value

/-- No tab stands among the blanks around a value. -/
def NoTabAround (value : CString) : Prop :=
  9 ∉ value.takeWhile isBlank ∧ 9 ∉ value.rtakeWhile isBlank

variable {name : CString}

theorem isSpace_of_isBlank {b : UInt8} (blank : isBlank b) : b == 32 ↔ b ≠ 9 := by
  rw [isBlank, Bool.or_eq_true, beq_iff_eq, beq_iff_eq] at blank
  rw [beq_iff_eq]
  rcases blank with rfl | rfl <;> decide

theorem stripSpaces_eq_trim_iff (value : CString) :
    stripSpaces value = trim value ↔ NoTabAround value := by
  have wider : ∀ b : UInt8, b == 32 → isBlank b := fun b space => by
    rw [isBlank, space, Bool.true_or]
  have noTab : ∀ part : CString, (∀ b ∈ part, isBlank b) → ((∀ b ∈ part, b == 32) ↔ 9 ∉ part) := by
    intro part blanks
    constructor
    · intro spaces member
      exact absurd (spaces 9 member) (by decide)
    · intro free b member
      rw [isSpace_of_isBlank (blanks b member)]
      rintro rfl
      exact free member
  have stripped := Stripping.strip_eq_strip_iff wider value
  rw [noTab _ fun b member => List.mem_takeWhile_imp member,
    noTab _ fun b member => List.mem_rtakeWhile_imp member] at stripped
  exact stripped

theorem tinoxStringTrim_plain {value : CString} (plain : Plain value) :
    tinoxStringTrim value = trim value := by
  have wider : ∀ b : UInt8, isBlank b → Formats.Toml.isBlank b := fun b blank => by
    rw [isBlank] at blank
    rw [Formats.Toml.isBlank, blank, Bool.true_or, Bool.true_or]
  have narrow : ∀ b ∈ value, Formats.Toml.isBlank b → isBlank b := by
    intro b member blank
    rw [Formats.Toml.isBlank, Bool.or_assoc, Bool.or_eq_true, Bool.or_eq_true (b == 10),
      beq_iff_eq, beq_iff_eq] at blank
    exact blank.resolve_right (not_or.mpr ⟨(plain b member).2.1, (plain b member).1⟩)
  have stripped := Stripping.strip_eq_strip_iff wider value
  exact (stripped.mpr
    ⟨fun b member => narrow b ((List.takeWhile_prefix _).subset member)
      (List.mem_takeWhile_imp member),
    fun b member => narrow b ((List.rtakeWhile_suffix _ _).subset member)
      (List.mem_rtakeWhile_imp member)⟩).symm

theorem tinoxStringTrim_token (isToken : Token name) : tinoxStringTrim name = name := by
  rw [tinoxStringTrim_plain fun b member => isPlain_of_isTokenByte (isToken.2 b member)]
  apply trim_eq_self
  intro b member blank
  rw [isBlank, Bool.or_eq_true, beq_iff_eq, beq_iff_eq] at blank
  rcases blank with rfl | rfl
  · exact absurd (isToken.2 32 member) (by decide)
  · exact absurd (isToken.2 9 member) (by decide)

variable {field : CString × CString} {method target : CString} {fields : List (CString × CString)}

theorem notNewline {line : CString} (plain : Plain line) : ∀ b ∈ line ++ [13], (b != 10) = true := by
  intro b member
  rw [bne_iff_ne]
  rcases List.mem_append.mp member with inLine | isCr
  · exact (plain b inLine).2.1
  · rw [List.mem_singleton.mp isCr]
    decide

/-- A name up to the first colon, and what stands behind this. -/
def IsHeader (field : CString × CString) : Prop :=
  Plain field.1 ∧ 58 ∉ field.1 ∧ Plain field.2

theorem IsField.isHeader (isField : IsField field) : IsHeader field :=
  ⟨fun b member => isPlain_of_isTokenByte (isField.1.2 b member),
    fun member => notColon_of_isTokenByte (isField.1.2 58 member) rfl, isField.2⟩

theorem IsHeader.notColon (isHeader : IsHeader field) : ∀ b ∈ field.1, (b != 58) = true :=
  Lines.bne_of_notMem isHeader.2.1

theorem IsHeader.plain_lineOf (isHeader : IsHeader field) : Plain (lineOf field) := by
  rw [lineOf, ← List.singleton_append]
  exact isHeader.1.append ((by decide : Plain [58]).append isHeader.2.2)

theorem plain_requestLine (isMethod : Plain method) (isTarget : Plain target) :
    Plain (method ++ [32] ++ target ++ [32] ++ literal "HTTP/1.1") :=
  (((isMethod.append (by decide)).append isTarget).append (by decide)).append (by decide)

namespace RequestText

variable (text : RequestText)

theorem plain_method : Plain text.method :=
  fun b member => isPlain_of_isTokenByte (text.isMethod.2 b member)

theorem noSpace_method : 32 ∉ text.method :=
  fun member => absurd (text.isMethod.2 32 member) (by decide)

theorem plain_firstLine : Plain text.firstLine := by
  exact plain_requestLine text.plain_method text.isTarget.1

/-- The lines of a request and what is behind them, as `parseRawRequest` splits them. -/
theorem split_bytes :
    tinoxStringSplit crlf text.bytes =
      text.firstLine :: (text.fields.map lineOf ++ [] :: tinoxStringSplit crlf text.body) := by
  have splitLines : ∀ lines : List CString, (∀ line ∈ lines, Plain line) →
      ∀ rest, tinoxStringSplit crlf (linesText lines ++ rest) =
        lines ++ tinoxStringSplit crlf rest := by
    intro lines plain rest
    induction lines with
    | nil => rfl
    | cons line lines ih =>
        rw [List.forall_mem_cons] at plain
        rw [linesText_cons, List.append_assoc, tinoxStringSplit_line plain.1, ih plain.2,
          List.cons_append]
  have isText : text.bytes =
      linesText (text.firstLine :: (text.fields.map lineOf ++ [[]])) ++ text.body := by
    rw [bytes, headText, ← List.cons_append, linesText_append]
    rfl
  rw [isText, splitLines, List.cons_append, List.append_assoc]
  · rfl
  · intro line member
    rw [List.mem_cons, List.mem_append, List.mem_singleton] at member
    rcases member with rfl | inLines | rfl
    · exact text.plain_firstLine
    · rcases List.mem_map.mp inLines with ⟨field, isField, rfl⟩
      exact (text.areFields field isField).isHeader.plain_lineOf
    · exact fun b inNil => absurd inNil List.not_mem_nil

end RequestText

theorem substring_indexOf {s : CString} {b : UInt8} {found : Nat} (isFound : indexOf s b = some found) :
    substring s 0 found = s.takeWhile (· != b) ∧
      substring s (found + 1) s.length = (s.dropWhile (· != b)).tail := by
  rw [indexOf] at isFound
  split at isFound
  next =>
    cases isFound
    have isSplit := List.takeWhile_append_dropWhile (p := (· != b)) (l := s)
    generalize s.takeWhile (· != b) = before at isSplit
    generalize s.dropWhile (· != b) = behind at isSplit
    rw [substring, substring, List.take_length, ← isSplit, List.take_left, List.drop_zero,
      ← List.drop_drop, List.drop_left, List.drop_one]
    exact ⟨rfl, rfl⟩
  next => contradiction

theorem takeFirstLine_firstLine (text : RequestText) :
    takeFirstLine ⟨[], [], [], StringMap.new, [], StringMap.new⟩ text.firstLine =
      ⟨text.method, text.target.takeWhile (· != 63), [], StringMap.new,
        (text.target.dropWhile (· != 63)).tail, StringMap.new⟩ := by
  have isSplit : tinoxStringSplit [32] text.firstLine =
      [text.method, text.target, literal "HTTP/1.1"] := by
    rw [RequestText.firstLine, List.append_assoc, List.append_assoc,
      tinoxStringSplit_append text.noSpace_method, ← List.append_assoc,
      tinoxStringSplit_append text.isTarget.2, tinoxStringSplit_free]
    decide
  have isSpace : literal " " = [32] := by decide
  rw [takeFirstLine, isSpace, isSplit]
  cases isFound : indexOf text.target 63 with
  | some qIdx =>
      rcases substring_indexOf isFound with ⟨isPath, isQuery⟩
      simp only [isFound, isPath, isQuery]
  | none =>
      have noMark : 63 ∉ text.target := fun member => by
        rw [indexOf, if_pos member] at isFound
        contradiction
      have noQuery := Lines.bne_of_notMem noMark
      simp only [isFound, List.takeWhile_eq_self_iff.mpr noQuery,
        List.dropWhile_eq_nil_iff.mpr noQuery, List.tail_nil]

/-- What `parseRawRequest` sets for a field. -/
def setEntry (field : CString × CString) : CString × CString :=
  (field.1, trim field.2)

theorem takeLine_lineOf (isField : IsField field) (headers : StringMap) :
    takeLine headers (lineOf field) = headers.set (setEntry field).1 (setEntry field).2 := by
  have noColon := isField.isHeader.2.1
  have isFound := Formats.Toml.indexOf_append noColon field.2
  rcases substring_indexOf isFound with ⟨isName, isValue⟩
  rw [List.takeWhile_append_of_pos isField.isHeader.notColon, List.takeWhile_cons_of_neg (by decide),
    List.append_nil] at isName
  rw [List.dropWhile_append_of_pos isField.isHeader.notColon, List.dropWhile_cons_of_neg (by decide),
    List.tail_cons] at isValue
  simp only [takeLine, lineOf, isFound, if_pos (List.length_pos_iff.mpr isField.1.1), isName,
    isValue, tinoxStringTrim_token isField.1, tinoxStringTrim_plain isField.2, setEntry]

theorem takeLines_fields (areFields : ∀ field ∈ fields, IsField field) (headers : StringMap)
    (lines : List CString) : takeLines headers (fields.map lineOf ++ [] :: lines) =
      (headers.setAll (fields.map setEntry), lines) := by
  induction fields generalizing headers with
  | nil => rfl
  | cons field fields ih =>
      rw [List.forall_mem_cons] at areFields
      have notEmpty : ¬ (lineOf field).length = 0 := by
        rw [lineOf, List.length_append, List.length_cons]
        omega
      rw [List.map_cons, List.cons_append, takeLines, if_neg notEmpty, takeLine_lineOf areFields.1,
        ih areFields.2]
      rfl

theorem parseRawRequest_bytes (text : RequestText) :
    (parseRawRequest text.bytes).request =
      ⟨text.method, text.target.takeWhile (· != 63),
        joinBody [] (tinoxStringSplit crlf text.body),
        StringMap.new.setAll (text.fields.map setEntry),
        (text.target.dropWhile (· != 63)).tail, StringMap.new⟩ := by
  simp only [parseRawRequest, lineEnd_eq, text.split_bytes, takeFirstLine_firstLine,
    takeLines_fields text.areFields]

/-- What `tinox_handle_one` sets for a field. -/
def borrowedEntry (field : CString × CString) : CString × CString :=
  (normalizeHeaderKey true field.1, stripSpaces field.2)

theorem parseHeader_lineOf (isHeader : IsHeader field) :
    parseHeader (lineOf field ++ [13]) = some (borrowedEntry field) := by
  rw [parseHeader, lineOf, List.append_assoc, List.dropWhile_append_of_pos isHeader.notColon,
    List.cons_append, List.dropWhile_cons_of_neg (by decide),
    List.takeWhile_append_of_pos isHeader.notColon, List.takeWhile_cons_of_neg (by decide),
    List.append_nil]
  simp only [Request.rdropWhile_value isHeader.2.2, borrowedEntry, stripSpaces]

theorem headerLoop_lineOf (isHeader : IsHeader field) (headers : StringMap) (s : CString) :
    headerLoop headers (lineOf field ++ crlf ++ s) =
      headerLoop (headers.set (borrowedEntry field).1 (borrowedEntry field).2) s := by
  have isLine : lineOf field ++ crlf ++ s = (lineOf field ++ [13]) ++ 10 :: s := by
    simp [crlf]
  have isName : ((lineOf field ++ [13]) ++ 10 :: s).takeWhile (· != 10) = lineOf field ++ [13] := by
    rw [List.takeWhile_append_of_pos (notNewline isHeader.plain_lineOf),
      List.takeWhile_cons_of_neg (by decide), List.append_nil]
  have isRest : ((lineOf field ++ [13]) ++ 10 :: s).dropWhile (· != 10) = 10 :: s := by
    rw [List.dropWhile_append_of_pos (notNewline isHeader.plain_lineOf),
      List.dropWhile_cons_of_neg (by decide)]
  have isFirst : ∃ c rest, (lineOf field ++ [13]) ++ 10 :: s = c :: rest ∧ c ≠ 13 ∧ c ≠ 10 := by
    cases isName : field.1 with
    | nil =>
        refine ⟨58, field.2 ++ [13] ++ 10 :: s, ?_, by decide, by decide⟩
        rw [lineOf, isName]
        rfl
    | cons c name =>
        have isPlain := isHeader.1 c (by rw [isName]; exact .head _)
        refine ⟨c, name ++ 58 :: field.2 ++ [13] ++ 10 :: s, ?_, isPlain.1, isPlain.2.1⟩
        rw [lineOf, isName]
        rfl
  rw [isLine]
  rcases isFirst with ⟨c, rest, isText, notCr, notLf⟩
  rw [isText] at isName isRest ⊢
  rw [headerLoop, if_neg notCr, if_neg notLf, isName, isRest]
  simp only [parseHeader_lineOf isHeader, List.tail_cons, if_neg (List.cons_ne_nil 10 s)]

theorem headerLoop_fields (areHeaders : ∀ field ∈ fields, IsHeader field) (headers : StringMap)
    (body : CString) : headerLoop headers (headText (fields.map lineOf) ++ body) =
      (headers.setAll (fields.map borrowedEntry), body) := by
  induction fields generalizing headers with
  | nil =>
      rw [List.map_nil, headText, linesText, List.flatMap_nil, List.nil_append, crlf,
        List.cons_append, headerLoop, if_pos rfl]
      rfl
  | cons field fields ih =>
      rw [List.forall_mem_cons] at areHeaders
      have isText : headText ((field :: fields).map lineOf) ++ body =
          lineOf field ++ crlf ++ (headText (fields.map lineOf) ++ body) := by
        simp only [List.map_cons, headText, linesText_cons, List.append_assoc]
      rw [isText, headerLoop_lineOf areHeaders.1, ih areHeaders.2]
      rfl

/-- A request line, fields, and a body. -/
def requestBytes (method target : CString) (fields : List (CString × CString)) (body : CString) :
    CString :=
  headText ((method ++ [32] ++ target ++ [32] ++ literal "HTTP/1.1") :: fields.map lineOf) ++ body

theorem requestLineOf_requestBytes (noSpace : 32 ∉ method) (isTarget : Plain target ∧ 32 ∉ target)
    (fields : List (CString × CString)) (body : CString) :
    requestLineOf (requestBytes method target fields body) = (method.take 7, target.take 255) := by
  have isText : requestBytes method target fields body =
      method ++ 32 :: (target ++ 32 :: (literal "HTTP/1.1" ++ crlf ++
        (headText (fields.map lineOf) ++ body))) := by
    simp [requestBytes, headText, linesText_cons]
  have inMethod := Lines.bne_of_notMem noSpace
  have inTarget : ∀ b ∈ target, (b != 32 && b != 13 && b != 10) = true := by
    intro b member
    have isPlain := isTarget.1 b member
    simp only [Bool.and_eq_true, bne_iff_ne]
    refine ⟨⟨?_, isPlain.1⟩, isPlain.2.1⟩
    rintro rfl
    exact isTarget.2 member
  rw [requestLineOf, isText, List.dropWhile_append_of_pos inMethod,
    List.takeWhile_append_of_pos inMethod, List.dropWhile_cons_of_neg (by decide),
    List.takeWhile_cons_of_neg (by decide), List.append_nil]
  simp only [List.takeWhile_append_of_pos inTarget]
  rw [List.takeWhile_cons_of_neg (by decide), List.append_nil]

theorem handleOneRequest_requestBytes (routes : List (Route Handler))
    (isMethod : Plain method ∧ 32 ∉ method) (isTarget : Plain target ∧ 32 ∉ target)
    (areHeaders : ∀ field ∈ fields, IsHeader field) (body : CString) :
    ∃ params, handleOneRequest routes (requestBytes method target fields body) =
      ⟨method.take 7, (target.take 255).takeWhile (· != 63), body,
        StringMap.new.setAll (fields.map borrowedEntry),
        ((target.take 255).dropWhile (· != 63)).tail, params⟩ := by
  have plainLine := plain_requestLine isMethod.1 isTarget.1
  have isHead : (requestBytes method target fields body).dropWhile (· != 10) =
      10 :: (headText (fields.map lineOf) ++ body) := by
    have isLines : requestBytes method target fields body =
        ((method ++ [32] ++ target ++ [32] ++ literal "HTTP/1.1") ++ [13]) ++
          10 :: (headText (fields.map lineOf) ++ body) := by
      simp [requestBytes, headText, linesText_cons, crlf]
    rw [isLines, List.dropWhile_append_of_pos (notNewline plainLine),
      List.dropWhile_cons_of_neg (by decide)]
  simp only [handleOneRequest, requestLineOf_requestBytes isMethod.2 isTarget, isHead,
    headerLoop_fields areHeaders]
  exact ⟨_, rfl⟩

theorem handleOneRequest_bytes (routes : List (Route Handler)) (text : RequestText) :
    ∃ params, handleOneRequest routes text.bytes =
      ⟨text.method, text.target.takeWhile (· != 63), text.body,
        StringMap.new.setAll (text.fields.map borrowedEntry),
        (text.target.dropWhile (· != 63)).tail, params⟩ := by
  rcases handleOneRequest_requestBytes routes ⟨text.plain_method, text.noSpace_method⟩ text.isTarget
    (fun field isField => (text.areFields field isField).isHeader) text.body with
    ⟨params, isRequest⟩
  rw [List.take_of_length_le text.methodFits, List.take_of_length_le text.targetFits] at isRequest
  exact ⟨params, isRequest⟩

variable {request : HttpRequest} {keys : List CString} {text : RequestText}

theorem toLowerCase_eq (s : CString) : toLowerCase s = s.map lower := by
  have isA : 'A'.toUInt8 = 65 := rfl
  have isZ : 'Z'.toUInt8 = 90 := rfl
  rw [toLowerCase]
  apply List.map_congr_left
  intro c _
  simp only [isA, isZ, lower, Bool.and_eq_true, decide_eq_true_iff]

theorem getHeader_named (lists : Lists keys request.headers) {value : CString}
    (isNamed : ∃ key, (request.headers key).isSome ∧ key.map lower = name.map lower)
    (values : ∀ key v, request.headers key = some v → key.map lower = name.map lower → v = value) :
    getHeader request keys name = value := by
  rw [getHeader]
  split
  next v isSet => exact values name v isSet rfl
  next =>
    simp only [toLowerCase_eq]
    split
    next key isFound =>
      have isKey := (lists key).mp (List.mem_of_find?_eq_some isFound)
      rcases Option.isSome_iff_exists.mp isKey with ⟨v, isSet⟩
      rw [isSet]
      have same := List.find?_some isFound
      exact values key v isSet (beq_iff_eq.mp same)
    next isNone =>
      rcases isNamed with ⟨key, isKey, same⟩
      exact absurd (beq_iff_eq.mpr same) (List.find?_eq_none.mp isNone key ((lists key).mpr isKey))

theorem getHeader_unnamed (lists : Lists keys request.headers)
    (unnamed : ∀ key, (request.headers key).isSome → key.map lower ≠ name.map lower) :
    getHeader request keys name = [] := by
  rw [getHeader]
  split
  next v isSet => exact absurd rfl (unnamed name (Option.isSome_of_eq_some isSet))
  next =>
    simp only [toLowerCase_eq]
    split
    next key isFound =>
      have isKey := (lists key).mp (List.mem_of_find?_eq_some isFound)
      have same := List.find?_some isFound
      exact absurd (beq_iff_eq.mp same) (unnamed key isKey)
    next => rfl

theorem setAll_last (bound : List (CString × CString)) (key : CString) :
    StringMap.new.setAll bound key =
      (bound.reverse.find? fun binding => binding.1 == key).map Prod.snd := by
  induction bound using List.reverseRecOn with
  | nil => rfl
  | append_singleton bound binding ih =>
      have isLast : StringMap.new.setAll (bound ++ [binding]) key =
          if key = binding.1 then some binding.2 else StringMap.new.setAll bound key := by
        rw [StringMap.setAll, List.foldl_append]
        rfl
      rw [isLast, ih, List.reverse_append, List.reverse_singleton, List.singleton_append,
        List.find?_cons]
      by_cases isKey : key = binding.1
      · rw [if_pos isKey, isKey, beq_self_eq_true]
        rfl
      · rw [if_neg isKey, beq_eq_false_iff_ne.mpr (Ne.symm isKey)]

theorem exists_lists (bound : List (CString × CString)) :
    ∃ keys, Lists keys (StringMap.new.setAll bound) := by
  refine ⟨bound.map Prod.fst, fun key => ?_⟩
  rw [setAll_last, Option.isSome_map, List.find?_isSome]
  simp

set_option maxRecDepth 1024 in
/-- Keys are normalized alike exactly when they have the same letters. -/
theorem normalizeHeaderKey_eq_iff (key other : CString) :
    normalizeHeaderKey true key = normalizeHeaderKey true other ↔ key.map lower = other.map lower := by
  have ofLower : ∀ capNext key, normalizeHeaderKey capNext (key.map lower) =
      normalizeHeaderKey capNext key := by
    intro capNext key
    induction key generalizing capNext with
    | nil => rfl
    | cons k key ih =>
        have spec : (lower k = 45 ↔ k = 45) ∧
            (if 97 ≤ lower k ∧ lower k ≤ 122 then lower k - 32 else lower k) =
              (if 97 ≤ k ∧ k ≤ 122 then k - 32 else k) := by
          revert k
          apply Formats.Toml.forall_byte
          decide
        simp only [List.map_cons, normalizeHeaderKey, spec.1, spec.2, (Request.lower_upper k).2, ih]
        split
        next isDash => rw [isDash]; rfl
        next => rfl
  constructor
  · intro same
    rw [← Request.lower_normalizeHeaderKey true key, same, Request.lower_normalizeHeaderKey]
  · intro same
    rw [← ofLower, same, ofLower]

namespace RequestText

variable (text : RequestText)

theorem lastNamed_congr {other : CString} (same : name.map lower = other.map lower) :
    text.lastNamed name = text.lastNamed other := by
  rw [lastNamed, lastNamed, same]

theorem mem_of_lastNamed (isLast : text.lastNamed name = some field) :
    field ∈ text.fields ∧ field.1.map lower = name.map lower := by
  rw [lastNamed] at isLast
  have same := List.find?_some isLast
  exact ⟨List.mem_reverse.mp (List.mem_of_find?_eq_some isLast), beq_iff_eq.mp same⟩

theorem lastNamed_eq_none (isNone : text.lastNamed name = none) (member : field ∈ text.fields) :
    field.1.map lower ≠ name.map lower := by
  intro same
  exact List.find?_eq_none.mp isNone field (List.mem_reverse.mpr member) (beq_iff_eq.mpr same)

theorem borrowed_normalized (name : CString) :
    StringMap.new.setAll (text.fields.map borrowedEntry) (normalizeHeaderKey true name) =
      (text.lastNamed name).map fun field => stripSpaces field.2 := by
  have samePred : (fun binding : CString × CString => binding.1 == normalizeHeaderKey true name) ∘
      borrowedEntry = fun field => field.1.map lower == name.map lower := by
    funext field
    rw [Function.comp_apply, borrowedEntry, Bool.eq_iff_iff, beq_iff_eq, beq_iff_eq]
    exact normalizeHeaderKey_eq_iff field.1 name
  rw [setAll_last, ← List.map_reverse, List.find?_map, samePred, Option.map_map]
  rfl

end RequestText

theorem getHeader_borrowed
    (isHeaders : request.headers = StringMap.new.setAll (text.fields.map borrowedEntry))
    (lists : Lists keys request.headers) (name : CString) : getHeader request keys name =
      ((text.lastNamed name).map fun field => stripSpaces field.2).getD [] := by
  have ofKey : ∀ key v, request.headers key = some v → ∃ field ∈ text.fields,
      key = normalizeHeaderKey true field.1 := by
    intro key v isSet
    rw [isHeaders] at isSet
    rcases mem_of_setAll isSet with member | isNew
    · rcases List.mem_map.mp member with ⟨field, isField, isEntry⟩
      exact ⟨field, isField, (congrArg Prod.fst isEntry).symm⟩
    · contradiction
  cases isLast : text.lastNamed name with
  | none =>
      apply getHeader_unnamed lists
      intro key isKey
      rcases Option.isSome_iff_exists.mp isKey with ⟨v, isSet⟩
      rcases ofKey key v isSet with ⟨field, isField, rfl⟩
      rw [Request.lower_normalizeHeaderKey]
      exact text.lastNamed_eq_none isLast isField
  | some last =>
      apply getHeader_named lists
      · refine ⟨normalizeHeaderKey true name, ?_, Request.lower_normalizeHeaderKey true name⟩
        rw [isHeaders, text.borrowed_normalized, isLast]
        rfl
      · intro key v isSet same
        rcases ofKey key v isSet with ⟨field, -, rfl⟩
        rw [Request.lower_normalizeHeaderKey] at same
        rw [isHeaders, text.borrowed_normalized, text.lastNamed_congr same, isLast] at isSet
        exact (Option.some.inj isSet).symm

theorem set_field (member : field ∈ text.fields) :
    StringMap.new.setAll (text.fields.map setEntry) field.1 = some (trim field.2) := by
  have once : ((text.fields.map setEntry).map Prod.fst).Nodup := by
    rw [List.map_map]
    exact text.distinct
  exact setAll_of_mem once (List.mem_map_of_mem member)

theorem getHeader_field
    (isHeaders : request.headers = StringMap.new.setAll (text.fields.map setEntry))
    (keys : List CString) (member : field ∈ text.fields) :
    getHeader request keys field.1 = trim field.2 := by
  rw [getHeader, isHeaders, set_field member]

theorem getHeader_set
    (isHeaders : request.headers = StringMap.new.setAll (text.fields.map setEntry))
    (lists : Lists keys request.headers)
    (oneValue : ∀ last ∈ text.lastNamed name, ∀ field ∈ text.fields, field.1.map lower = name.map lower → trim field.2 = trim last.2) :
    getHeader request keys name = ((text.lastNamed name).map fun field => trim field.2).getD [] := by
  have ofKey : ∀ key v, request.headers key = some v → ∃ field ∈ text.fields,
      key = field.1 ∧ v = trim field.2 := by
    intro key v isSet
    rw [isHeaders] at isSet
    rcases mem_of_setAll isSet with member | isNew
    · rcases List.mem_map.mp member with ⟨field, isField, isEntry⟩
      exact ⟨field, isField, (congrArg Prod.fst isEntry).symm, (congrArg Prod.snd isEntry).symm⟩
    · contradiction
  cases isLast : text.lastNamed name with
  | none =>
      apply getHeader_unnamed lists
      intro key isKey
      rcases Option.isSome_iff_exists.mp isKey with ⟨v, isSet⟩
      rcases ofKey key v isSet with ⟨field, isField, rfl, -⟩
      exact text.lastNamed_eq_none isLast isField
  | some last =>
      rcases text.mem_of_lastNamed isLast with ⟨isField, same⟩
      apply getHeader_named lists
      · refine ⟨last.1, ?_, same⟩
        rw [isHeaders, set_field isField]
        rfl
      · intro key v isSet sameName
        rcases ofKey key v isSet with ⟨field, isField, rfl, rfl⟩
        exact oneValue last isLast field isField sameName

/-- Both parsers make the same request of a text exactly when its body does not begin with a line
end, and the last field of each name, in any case, has no tab around its value and the value of
all the others. -/
theorem sameRequest_iff (routes : List (Route Handler)) (text : RequestText) :
    SameRequest (parseRawRequest text.bytes).request (handleOneRequest routes text.bytes) ↔
      ¬ crlf <+: text.body ∧ ∀ field ∈ text.fields, ∀ last ∈ text.lastNamed field.1,
        NoTabAround last.2 ∧ trim field.2 = trim last.2 := by
  rcases handleOneRequest_bytes routes text with ⟨params, isBorrowed⟩
  rw [parseRawRequest_bytes, isBorrowed, SameRequest]
  simp only [true_and]
  rw [joinBody_split_iff]
  apply and_congr_right
  intro _
  constructor
  · intro alike field member last isLast
    rcases exists_lists (text.fields.map setEntry) with ⟨keys, lists⟩
    rcases exists_lists (text.fields.map borrowedEntry) with ⟨otherKeys, otherLists⟩
    have ofField : ∀ field ∈ text.fields, ∀ last ∈ text.lastNamed field.1,
        trim field.2 = stripSpaces last.2 := by
      intro field member last isLast
      have isValue := alike keys otherKeys lists otherLists field.1
      rw [getHeader_field rfl keys member, getHeader_borrowed rfl otherLists,
        Option.mem_def.mp isLast] at isValue
      exact isValue
    rcases text.mem_of_lastNamed isLast with ⟨isField, same⟩
    have ofLast := ofField last isField last (by rw [text.lastNamed_congr same]; exact isLast)
    exact ⟨(stripSpaces_eq_trim_iff last.2).mp ofLast.symm,
      (ofField field member last isLast).trans ofLast.symm⟩
  · intro values keys otherKeys lists otherLists name
    have oneValue : ∀ last ∈ text.lastNamed name, ∀ field ∈ text.fields,
        field.1.map lower = name.map lower → trim field.2 = trim last.2 := by
      intro last isLast field member same
      rw [← text.lastNamed_congr same] at isLast
      exact (values field member last isLast).2
    rw [getHeader_set rfl lists oneValue, getHeader_borrowed rfl otherLists]
    cases isLast : text.lastNamed name with
    | none => rfl
    | some last =>
        rcases text.mem_of_lastNamed isLast with ⟨isField, same⟩
        have noTab := (values last isField last (by rw [text.lastNamed_congr same]; exact isLast)).1
        exact ((stripSpaces_eq_trim_iff last.2).mpr noTab).symm

/-- A request whose body begins with a line end. -/
def emptyLineFirst : RequestText where
  method := literal "POST"
  target := literal "/notes?draft=1"
  fields := [(literal "Host", literal " example.org"), (literal "Content-Length", literal " 6")]
  body := literal "\r\ntext"
  isMethod := by decide
  methodFits := by decide
  isTarget := by decide
  targetFits := by decide
  areFields := by decide
  distinct := by decide
  nulFree := by
    rw [NulFree]
    decide

/-- Behind TLS the empty line in front of a body is lost. -/
theorem emptyLineFirst_notSame :
    ¬ SameRequest (parseRawRequest emptyLineFirst.bytes).request
      (handleOneRequest ([] : List (Route Unit)) emptyLineFirst.bytes) := by
  rcases handleOneRequest_bytes ([] : List (Route Unit)) emptyLineFirst with ⟨params, isBorrowed⟩
  rw [parseRawRequest_bytes, isBorrowed]
  rintro ⟨-, -, -, isBody, -⟩
  exact (joinBody_split_iff emptyLineFirst.body).mp isBody ⟨literal "text", by decide⟩

end Tinox.Net.Http1
