import Tinox.Runtime.Numerals
import Tinox.Net.Messages

/-!
# Responses of HTTP/1.1

What `tinox_handle_one` sends when a handler is done: a status line, the entries of the response
header map as far as they fit into a buffer of 4096 bytes, its own fields, and the body.
-/

namespace Tinox.Net.Http1

open Tinox.Runtime Messages

/-- What a handler leaves in `g_response`.  The entries stand in the order of `tinox_map_keys`. -/
structure Answer where
  status : Int64
  headers : List (CString × CString)
  body : CString
  threeDigits : 100 ≤ status.toInt ∧ status.toInt ≤ 999
  distinct : (headers.map Prod.fst).Nodup
  nulFree : ∀ entry ∈ headers, NulFree entry.1 ∧ NulFree entry.2
  bodyNulFree : NulFree body
  inMemory : body.length < 2 ^ 63

/-- `http_status_text`. -/
def httpStatusText (code : Int64) : CString :=
  if code = 200 then literal "OK"
  else if code = 201 then literal "Created"
  else if code = 204 then literal "No Content"
  else if code = 400 then literal "Bad Request"
  else if code = 401 then literal "Unauthorized"
  else if code = 403 then literal "Forbidden"
  else if code = 404 then literal "Not Found"
  else if code = 405 then literal "Method Not Allowed"
  else if code = 415 then literal "Unsupported Media Type"
  else if code = 500 then literal "Internal Server Error"
  else literal "OK"

/-- The bytes of `HTTP/1.1`, the digits of the status and its text. -/
def statusLine (status : Int64) : CString :=
  literal "HTTP/1.1 " ++
    ['0'.toUInt8 + (status / 100).toUInt64.toUInt8,
      '0'.toUInt8 + (status / 10 % 10).toUInt64.toUInt8,
      '0'.toUInt8 + (status % 10).toUInt64.toUInt8, ' '.toUInt8] ++
    httpStatusText status

/-- One round over the entries of the map: an entry that does not fit is left out. -/
def putHeader (hdrBuf : CString) (entry : CString × CString) : CString :=
  if hdrBuf.length + entry.1.length + entry.2.length + 4 < 4096 then
    hdrBuf ++ entry.1 ++ literal ": " ++ entry.2 ++ literal "\r\n"
  else hdrBuf

/-- What `hdr_buf` holds in the end. -/
def headerBuffer (headers : List (CString × CString)) : CString :=
  let hdrBuf := headers.foldl putHeader []
  if headers.any (·.1 == literal "Content-Type") then hdrBuf
  else if hdrBuf.length + 32 < 4096 then hdrBuf ++ literal "Content-Type: application/json\r\n"
  else hdrBuf

/-- The field `Connection`. -/
def connectionLine (reqClose : Bool) : CString :=
  if reqClose then literal "Connection: close\r\n" else literal "Connection: keep-alive\r\n"

/-- The end of `tinox_handle_one`: what is sent. -/
def respond (status : Int64) (headers : List (CString × CString)) (body : CString)
    (reqClose : Bool) : CString :=
  statusLine status ++ literal "\r\n" ++ headerBuffer headers ++ literal "Content-Length: " ++
    fastI64Write (Int64.ofNat body.length) ++ literal "\r\n" ++ connectionLine reqClose ++
    literal "\r\n" ++ body

/-- The entries of the map, and the content type that is used when it has none. -/
def Answer.entries (answer : Answer) : List (CString × CString) :=
  if answer.headers.any (·.1 == literal "Content-Type") then answer.headers
  else answer.headers ++ [(literal "Content-Type", literal "application/json")]

/-- The fields of the server itself. -/
def ownFields (body : CString) (reqClose : Bool) : List (CString × CString) :=
  [(literal "Content-Length", natBytes body.length),
    (literal "Connection", literal (if reqClose then "close" else "keep-alive"))]

/-- What is sent is one response: the one that the handler made. -/
def Answer.IsSent (answer : Answer) (reqClose : Bool) : Prop :=
  ∃ fields,
    readResponse (respond answer.status answer.headers answer.body reqClose) =
      some ⟨answer.status.toInt.toNat, fields, answer.body⟩ ∧
    fields.Perm (answer.entries ++ ownFields answer.body reqClose)

/-- The bytes that entries take. -/
def entriesSize (entries : List (CString × CString)) : Nat :=
  (entries.map fun entry => entry.1.length + entry.2.length + 4).sum

/-- The answer can be sent: its entries are fields of HTTP and fit into the buffer, and neither
its status nor its entries say something else about the body. -/
structure Answer.Sendable (answer : Answer) : Prop where
  wellFormed : ∀ entry ∈ answer.headers, WellFormed entry
  fits : entriesSize answer.entries < 4096
  framed :
    if Bodyless answer.status.toInt.toNat then answer.body = []
    else ∀ entry ∈ answer.headers, ¬ IsNamed entry.1 "transfer-encoding" ∧
      (IsNamed entry.1 "content-length" → readNumber entry.2 = some answer.body.length)

/-- The bytes that an entry takes. -/
def entrySize (entry : CString × CString) : Nat :=
  entry.1.length + entry.2.length + 4

/-- The entries that the buffer takes from an offset on. -/
def kept (offset : Nat) : List (CString × CString) → List (CString × CString)
  | [] => []
  | entry :: entries =>
      if offset + entrySize entry < 4096 then entry :: kept (offset + entrySize entry) entries
      else kept offset entries

theorem kept_sublist (offset : Nat) (entries : List (CString × CString)) :
    (kept offset entries).Sublist entries := by
  induction entries generalizing offset with
  | nil => exact List.Sublist.refl []
  | cons entry entries ih =>
      rw [kept]
      split
      · exact (ih _).cons_cons entry
      · exact (ih _).cons entry

theorem entriesSize_cons (entry : CString × CString) (entries : List (CString × CString)) :
    entriesSize (entry :: entries) = entrySize entry + entriesSize entries := by
  simp [entriesSize, entrySize]

theorem kept_eq_iff {offset : Nat} (inside : offset < 4096) (entries : List (CString × CString)) :
    kept offset entries = entries ↔ offset + entriesSize entries < 4096 := by
  induction entries generalizing offset with
  | nil => simpa [kept, entriesSize] using inside
  | cons entry entries ih =>
      rw [kept, entriesSize_cons, ← Nat.add_assoc]
      split
      next fits => rw [List.cons.injEq, ih fits, and_iff_right rfl]
      next tooLong =>
        constructor
        · intro isSame
          have isShort := (kept_sublist offset entries).length_le
          rw [isSame, List.length_cons] at isShort
          exact absurd isShort (Nat.not_succ_le_self _)
        · intro fits
          exact absurd (Nat.lt_of_le_of_lt (Nat.le_add_right _ _) fits) tooLong

theorem putHeader_eq (hdrBuf : CString) (entry : CString × CString) :
    putHeader hdrBuf entry =
      if hdrBuf.length + entrySize entry < 4096 then hdrBuf ++ linesText [fieldLine entry]
      else hdrBuf := by
  have isText : hdrBuf ++ entry.1 ++ literal ": " ++ entry.2 ++ literal "\r\n" =
      hdrBuf ++ linesText [fieldLine entry] := by
    have isColon : literal ": " = [58, 32] := by decide
    have isEnd : literal "\r\n" = crlf := by decide
    simp [linesText, fieldLine, isColon, isEnd]
  rw [putHeader, isText, entrySize, Nat.add_assoc, Nat.add_assoc, Nat.add_assoc]

theorem foldl_putHeader (hdrBuf : CString) (entries : List (CString × CString)) :
    entries.foldl putHeader hdrBuf =
      hdrBuf ++ linesText ((kept hdrBuf.length entries).map fieldLine) := by
  induction entries generalizing hdrBuf with
  | nil => simp [kept, linesText]
  | cons entry entries ih =>
      rw [List.foldl_cons, ih, putHeader_eq, kept]
      split
      next =>
        have isLength : (hdrBuf ++ linesText [fieldLine entry]).length =
            hdrBuf.length + entrySize entry := by
          simp [linesText, fieldLine, crlf, entrySize]
          omega
        rw [isLength]
        simp [linesText]
      next => rfl

theorem headerBuffer_eq (answer : Answer) :
    headerBuffer answer.headers = linesText ((kept 0 answer.entries).map fieldLine) := by
  have isFold := foldl_putHeader [] answer.entries
  rw [List.nil_append, List.length_nil] at isFold
  rw [← isFold, headerBuffer, Answer.entries]
  split
  · rfl
  · rw [List.foldl_append, List.foldl_cons, List.foldl_nil, putHeader]
    simp only [List.append_assoc]
    rfl

theorem digitByte_spec : ∀ digit : Fin 10,
    Messages.IsDigit ('0'.toUInt8 + UInt8.ofNat digit) ∧
      ('0'.toUInt8 + UInt8.ofNat digit).toNat - 48 = digit.val ∧
      IsPlain ('0'.toUInt8 + UInt8.ofNat digit) ∧
      (Int64.ofInt digit).toUInt64.toUInt8 = UInt8.ofNat digit := by
  decide

theorem readNumber_digitBytes {digits : List (Fin 10)} (notEmpty : digits ≠ []) :
    readNumber (digitBytes digits) = some (JsonText.decimal digits) := by
  have areDigits : ∀ b ∈ digitBytes digits, Messages.IsDigit b := by
    rw [digitBytes, List.forall_mem_map]
    exact fun digit _ => (digitByte_spec digit).1
  have isNumber : number (digitBytes digits) = JsonText.decimal digits := by
    rw [digitBytes, number, List.foldl_map]
    simp only [digitByte_spec]
    rfl
  rw [readNumber, if_pos ⟨List.map_eq_nil_iff.not.mpr notEmpty, areDigits⟩, isNumber]

theorem readNumber_natBytes (n : Nat) : readNumber (natBytes n) = some n := by
  rcases digits_of_nat n with ⟨first, rest, isText, isValue, -⟩
  rw [← isText, readNumber_digitBytes (List.cons_ne_nil _ _), isValue]

theorem httpStatusText_plain (code : Int64) : Plain (httpStatusText code) := by
  rw [httpStatusText]
  repeat' refine iteInduction (fun _ => ?_) fun _ => ?_
  all_goals decide

theorem toUInt8_of_digit {x : Int64} {digit : Fin 10} (isDigit : x.toInt = digit) :
    x.toUInt64.toUInt8 = UInt8.ofNat digit := by
  have isOfInt : x = Int64.ofInt digit := by rw [← isDigit, Int64.ofInt_toInt]
  rw [isOfInt]
  exact (digitByte_spec digit).2.2.2

theorem statusLine_eq {status : Int64} {hundreds tens ones : Fin 10}
    (isCode : status.toInt = hundreds * 100 + tens * 10 + ones) :
    statusLine status = literal "HTTP/1.1 " ++
      (digitBytes [hundreds, tens, ones] ++ 32 :: httpStatusText status) := by
  have first : (status / 100).toInt = hundreds := by
    rw [Int64.toInt_div_of_ne_right _ _ (by decide), Int.tdiv_eq_ediv_of_nonneg (by omega), isCode]
    change (_ : Int) / 100 = _
    omega
  have tenths : (status / 10).toInt = hundreds * 10 + tens := by
    rw [Int64.toInt_div_of_ne_right _ _ (by decide), Int.tdiv_eq_ediv_of_nonneg (by omega), isCode]
    change (_ : Int) / 10 = _
    omega
  have second : (status / 10 % 10).toInt = tens := by
    rw [Int64.toInt_mod, Int.tmod_eq_emod_of_nonneg (by omega), tenths]
    change (_ : Int) % 10 = _
    omega
  have third : (status % 10).toInt = ones := by
    rw [Int64.toInt_mod, Int.tmod_eq_emod_of_nonneg (by omega), isCode]
    change (_ : Int) % 10 = _
    omega
  rw [statusLine, toUInt8_of_digit first, toUInt8_of_digit second, toUInt8_of_digit third,
    List.append_assoc]
  rfl

theorem Answer.statusLine_spec (answer : Answer) :
    readStatusLine (statusLine answer.status) = some answer.status.toInt.toNat ∧
      Plain (statusLine answer.status) := by
  rcases answer.threeDigits with ⟨low, high⟩
  rcases Int.eq_ofNat_of_zero_le (Int.le_trans (by decide) low) with ⟨code, isNat⟩
  rw [isNat] at low high
  let hundreds : Fin 10 := ⟨code / 100, by omega⟩
  let tens : Fin 10 := ⟨code / 10 % 10, Nat.mod_lt _ (by decide)⟩
  let ones : Fin 10 := ⟨code % 10, Nat.mod_lt _ (by decide)⟩
  have isCode : answer.status.toInt = hundreds * 100 + tens * 10 + ones := by
    rw [isNat]
    dsimp only [hundreds, tens, ones]
    omega
  have isDecimal : JsonText.decimal [hundreds, tens, ones] = code := by
    simp only [JsonText.decimal, List.foldl_cons, List.foldl_nil, hundreds, tens, ones]
    omega
  rw [statusLine_eq isCode]
  constructor
  · have isLength : (literal "HTTP/1.1 ").length = 9 := rfl
    have isStatus : readStatusLine (literal "HTTP/1.1 " ++
        (digitBytes [hundreds, tens, ones] ++ 32 :: httpStatusText answer.status)) =
          readNumber (digitBytes [hundreds, tens, ones]) := by
      rw [readStatusLine, ← isLength, List.take_left, List.drop_left, literal, if_pos rfl]
      rfl
    rw [isStatus, readNumber_digitBytes (List.cons_ne_nil _ _), isDecimal, isNat, Int.toNat_natCast]
  · have areDigits : Plain (digitBytes [hundreds, tens, ones]) := by
      rw [Plain, digitBytes, List.forall_mem_map]
      exact fun digit _ => (digitByte_spec digit).2.2.1
    have isVersion : Plain (literal "HTTP/1.1 ") := by decide
    refine isVersion.append (areDigits.append ?_)
    rw [Plain, List.forall_mem_cons]
    exact ⟨by decide, httpStatusText_plain answer.status⟩

theorem fastI64Write_length {size : Nat} (inMemory : size < 2 ^ 63) :
    fastI64Write (Int64.ofNat size) = natBytes size := by
  rw [fastI64Write_eq, printInteger_length inMemory]

theorem linesText_ownFields (body : CString) (reqClose : Bool) :
    linesText ((ownFields body reqClose).map fieldLine) =
      literal "Content-Length: " ++ natBytes body.length ++ literal "\r\n" ++
        connectionLine reqClose := by
  have isColon : literal "Content-Length" ++ [58, 32] = literal "Content-Length: " := by decide
  have isEnd : literal "\r\n" = crlf := by decide
  have isConnection : connectionLine reqClose =
      fieldLine (literal "Connection", literal (if reqClose then "close" else "keep-alive")) ++
        crlf := by
    cases reqClose <;> decide
  rw [isConnection, isEnd, ← isColon]
  simp [linesText, ownFields, fieldLine]

theorem respond_eq (answer : Answer) (reqClose : Bool) :
    respond answer.status answer.headers answer.body reqClose =
      headText (statusLine answer.status ::
        (kept 0 answer.entries ++ ownFields answer.body reqClose).map fieldLine) ++
      answer.body := by
  have isEnd : literal "\r\n" = crlf := by decide
  rw [respond, headerBuffer_eq, fastI64Write_length answer.inMemory, headText, linesText_cons,
    List.map_append, linesText_append, linesText_ownFields, isEnd]
  simp only [List.append_assoc]

theorem fieldValue_natBytes (n : Nat) : FieldValue (natBytes n) := by
  rcases digits_of_nat n with ⟨first, rest, isText, -, -⟩
  have ofDigit : ∀ digit : Fin 10, IsPlain ('0'.toUInt8 + UInt8.ofNat digit) ∧
      ¬ isBlank ('0'.toUInt8 + UInt8.ofNat digit) := by
    decide
  have ofByte : ∀ b ∈ natBytes n, IsPlain b ∧ ¬ isBlank b := by
    rw [← isText, digitBytes, List.forall_mem_map]
    exact fun digit _ => ofDigit digit
  exact ⟨fun b member => (ofByte b member).1, trim_eq_self fun b member => (ofByte b member).2⟩

theorem wellFormed_ownFields (body : CString) (reqClose : Bool) :
    ∀ field ∈ ownFields body reqClose, WellFormed field := by
  have isToken : Token (literal "Content-Length") := by decide
  have ofConnection : WellFormed
      (literal "Connection", literal (if reqClose then "close" else "keep-alive")) := by
    cases reqClose <;> decide
  simp only [ownFields, List.forall_mem_cons]
  exact ⟨⟨isToken, fieldValue_natBytes _⟩, ofConnection, List.forall_mem_nil _⟩

theorem forall_mem_entries {answer : Answer} {property : CString × CString → Prop}
    (ofDefault : property (literal "Content-Type", literal "application/json")) :
    (∀ entry ∈ answer.entries, property entry) ↔ ∀ entry ∈ answer.headers, property entry := by
  rw [Answer.entries]
  split
  · rfl
  · rw [List.forall_mem_append, List.forall_mem_singleton, and_iff_left ofDefault]

theorem framed_iff (answer : Answer) (reqClose : Bool) :
    Framed (answer.entries ++ ownFields answer.body reqClose) answer.body.length ↔
      ∀ entry ∈ answer.headers, ¬ IsNamed entry.1 "transfer-encoding" ∧
        (IsNamed entry.1 "content-length" → readNumber entry.2 = some answer.body.length) := by
  have ownLength : IsNamed (literal "Content-Length") "content-length" := by decide
  have ofOwn : ∀ field ∈ ownFields answer.body reqClose, ¬ IsNamed field.1 "transfer-encoding" ∧
      (IsNamed field.1 "content-length" → readNumber field.2 = some answer.body.length) := by
    have ofConnection : ¬ IsNamed (literal "Connection") "transfer-encoding" ∧
        ¬ IsNamed (literal "Connection") "content-length" := by
      decide
    simp only [ownFields, List.forall_mem_cons]
    exact ⟨⟨by decide, fun _ => readNumber_natBytes _⟩,
      ⟨ofConnection.1, fun isLength => absurd isLength ofConnection.2⟩, List.forall_mem_nil _⟩
  have ofDefault : ¬ IsNamed (literal "Content-Type") "transfer-encoding" ∧
      ¬ IsNamed (literal "Content-Type") "content-length" := by
    decide
  have someLength : ∃ field ∈ answer.entries ++ ownFields answer.body reqClose,
      IsNamed field.1 "content-length" :=
    ⟨_, List.mem_append_right _ (List.mem_cons_self ..), ownLength⟩
  rw [Framed, and_iff_right someLength, List.forall_mem_append, and_iff_left ofOwn]
  exact forall_mem_entries ⟨ofDefault.1, fun isLength => absurd isLength ofDefault.2⟩

theorem readResponse_respond {answer : Answer}
    (wellFormed : ∀ entry ∈ answer.headers, WellFormed entry) (reqClose : Bool) :
    readResponse (respond answer.status answer.headers answer.body reqClose) =
      if (Bodyless answer.status.toInt.toNat ∧ answer.body = []) ∨
          (¬ Bodyless answer.status.toInt.toNat ∧
            Framed (kept 0 answer.entries ++ ownFields answer.body reqClose)
              answer.body.length) then
        some ⟨answer.status.toInt.toNat, kept 0 answer.entries ++ ownFields answer.body reqClose,
          answer.body⟩
      else none := by
  rcases answer.statusLine_spec with ⟨isStatus, plain⟩
  have ofEntries : ∀ entry ∈ answer.entries, WellFormed entry :=
    (forall_mem_entries (by decide)).mpr wellFormed
  have ofFields : ∀ field ∈ kept 0 answer.entries ++ ownFields answer.body reqClose,
      WellFormed field := by
    rw [List.forall_mem_append]
    exact ⟨fun entry member => ofEntries entry ((kept_sublist 0 _).subset member),
      wellFormed_ownFields answer.body reqClose⟩
  rw [respond_eq, readResponse_headText plain isStatus ofFields]

theorem Answer.IsSent.wellFormed {answer : Answer} {reqClose : Bool}
    (isSent : answer.IsSent reqClose) : ∀ entry ∈ answer.headers, WellFormed entry := by
  rcases isSent with ⟨fields, isRead, isPerm⟩
  have ofFields := wellFormed_of_readResponse isRead
  have ofEntries : ∀ entry ∈ answer.entries, WellFormed entry := by
    intro entry member
    apply ofFields
    rw [isPerm.mem_iff]
    exact List.mem_append_left _ member
  exact (forall_mem_entries (by decide)).mp ofEntries

/-- A response on the wire is the one that the handler made exactly when the answer is sendable. -/
theorem isSent_iff_sendable (answer : Answer) (reqClose : Bool) :
    answer.IsSent reqClose ↔ answer.Sendable := by
  constructor
  · intro isSent
    have wellFormed := isSent.wellFormed
    rcases isSent with ⟨fields, isRead, isPerm⟩
    rw [readResponse_respond wellFormed] at isRead
    split at isRead
    next framed =>
      cases isRead
      have sameLength := isPerm.length_eq
      rw [List.length_append, List.length_append, Nat.add_right_cancel_iff] at sameLength
      have allKept : kept 0 answer.entries = answer.entries :=
        (kept_sublist 0 answer.entries).eq_of_length sameLength
      have fits := (kept_eq_iff (by decide) answer.entries).mp allKept
      rw [Nat.zero_add] at fits
      rw [allKept, framed_iff] at framed
      refine ⟨wellFormed, fits, ?_⟩
      rcases framed with ⟨bodyless, isEmpty⟩ | ⟨notBodyless, framed⟩
      · rwa [if_pos bodyless]
      · rwa [if_neg notBodyless]
    next => contradiction
  · intro sendable
    have allKept : kept 0 answer.entries = answer.entries := by
      rw [kept_eq_iff (by decide), Nat.zero_add]
      exact sendable.fits
    refine ⟨_, ?_, List.Perm.refl _⟩
    rw [readResponse_respond sendable.wellFormed, allKept]
    apply if_pos
    rw [framed_iff]
    have framed := sendable.framed
    by_cases bodyless : Bodyless answer.status.toInt.toNat
    · rw [if_pos bodyless] at framed
      exact Or.inl ⟨bodyless, framed⟩
    · rw [if_neg bodyless] at framed
      exact Or.inr ⟨bodyless, framed⟩

/-- An answer whose only entry sets a cookie behind a line end. -/
def splitAnswer : Answer where
  status := 200
  headers := [(literal "Location", literal "/\r\nSet-Cookie: admin=1")]
  body := []
  threeDigits := by decide
  distinct := by decide
  nulFree := by
    simp only [NulFree]
    decide
  bodyNulFree := List.not_mem_nil
  inMemory := by decide

/-- A value adds a field to the response. -/
theorem splitAnswer_notSent :
    ¬ splitAnswer.IsSent false ∧
      ((readResponse (respond splitAnswer.status splitAnswer.headers splitAnswer.body false)).any
        fun response => response.fields.any (·.1 == literal "Set-Cookie")) := by
  constructor
  · intro isSent
    exact absurd (isSent.wellFormed _ (List.mem_cons_self ..)) (by decide)
  · decide

end Tinox.Net.Http1
