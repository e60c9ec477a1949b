import Tinox.Net.Http1Responses
import Tinox.Net.Http2Frames
import Tinox.Net.SmtpClient
import Tinox.Runtime.Numerals

/-!
# A Redis client

`RedisClient` writes commands as arrays of bulk strings, and `get` reads one bulk string.  What is
written is read by the grammar of RESP2 as what was meant; `get` believes a length whatever it is
and however many bytes come.
-/

namespace Tinox.Net.RedisClient

open Lines Segments Tinox.Runtime SmtpClient Messages Http1

/-- `RedisClient`. -/
structure Client where
  conn : TinoxConn
  getFound : Bool

/-- One argument in the loop of `sendCommand`. -/
def argumentText (argument : CString) : CString :=
  literal "$" ++ printInteger (Int64.ofNat argument.length) ++ literal "\r\n" ++ argument ++
    literal "\r\n"

/-- `out` in `RedisClient.sendCommand`. -/
def commandText (args : List CString) : CString :=
  literal "*" ++ printInteger (Int64.ofNat args.length) ++ literal "\r\n" ++
    args.flatMap argumentText

/-- `RedisClient.sendCommand`. -/
def sendCommand (client : Client) (args : List CString) : Client :=
  { client with conn := httpConnSendRaw client.conn (commandText args) }

/-- The loop of `RedisClient.get`; an index out of range ends the process. -/
def valueLoop (bytes : List Int64) (len : Int64) : Option (List Int64) :=
  (List.range len.toInt.toNat).mapM fun i => bytes[i]?

/-- `RedisClient.get`. -/
def get (client : Client) (key : CString) : Option (CString × Client) :=
  let client := sendCommand client [literal "GET", key]
  let header := httpConnReadLine client.conn
  if !(literal "$").isPrefixOf header.1 || header.1 == literal "$-1" then
    some ([], ⟨header.2, false⟩)
  else
    let len := tinoxStringToInt (header.1.drop 1)
    let bytes := httpConnReadN header.2 (len + 2)
    (valueLoop bytes.1 len).map fun value => (tinoxBytesToString value, ⟨bytes.2, true⟩)

def crlf : CString :=
  [13, 10]

/-- A marker, a number and an end of line. -/
def readHeader (marker : UInt8) (text : CString) : Option (Nat × CString) := do
  let text ← text.dropPrefix? [marker]
  let digits := text.takeWhile (· != 13)
  let size ← readNumber digits
  let rest ← (text.drop digits.length).dropPrefix? crlf
  some (size, rest)

/-- A bulk string. -/
def readBulk (text : CString) : Option (CString × CString) := do
  let header ← readHeader 36 text
  let rest ← (header.2.drop header.1).dropPrefix? crlf
  some (header.2.take header.1, rest)

def readBulks : Nat → CString → Option (List CString × CString)
  | 0, text => some ([], text)
  | size + 1, text => do
      let bulk ← readBulk text
      let bulks ← readBulks size bulk.2
      some (bulk.1 :: bulks.1, bulks.2)

/-- An array of bulk strings. -/
def readArray (text : CString) : Option (List CString × CString) := do
  let header ← readHeader 42 text
  readBulks header.1 header.2

/-- A value as a server sends it. -/
def bulkText (value : CString) : CString :=
  [36] ++ natBytes value.length ++ crlf ++ value ++ crlf

/-- Every command is read as its arguments; an `Int64` holds all lengths. -/
def CommandsExact (client : Client) : Prop :=
  ∀ args : List CString, args.length < 2 ^ 63 → (∀ argument ∈ args, argument.length < 2 ^ 63) →
    ∃ text, (sendCommand client args).conn.outgoing = client.conn.outgoing ++ text ∧
      ∀ rest, readArray (text ++ rest) = some (args, rest)

/-- A value is returned and taken from the stream, and whatever else comes is not found. -/
def RepliesExact (client : Client) (key : CString) : Prop :=
  (∀ value rest, client.conn.incoming.flatten = bulkText value ++ rest →
    ∃ after, get client key = some (value, after) ∧ after.getFound = true ∧
      after.conn.incoming.flatten = rest) ∧
  ((∀ value rest, client.conn.incoming.flatten ≠ bulkText value ++ rest) →
    ∃ result, get client key = some result ∧ result.2.getFound = false)

/-- The first line of a stream, as `httpConnReadLine` keeps it. -/
def firstLine (stream : CString) : CString :=
  cString (stripped 13 ((stream.takeWhile (· != 10)).take 8192))

theorem cr_notMem_natBytes (size : Nat) : 13 ∉ natBytes size :=
  notMem_natBytes rfl size

theorem readHeader_text (marker : UInt8) (size : Nat) (rest : CString) :
    readHeader marker ([marker] ++ natBytes size ++ crlf ++ rest) = some (size, rest) := by
  have isDigits : (natBytes size ++ crlf ++ rest).takeWhile (· != 13) = natBytes size := by
    rw [List.append_assoc, List.takeWhile_append_of_pos]
    · change natBytes size ++ [] = natBytes size
      exact List.append_nil _
    · intro b member
      exact bne_iff_ne.mpr fun isCr => cr_notMem_natBytes size (isCr ▸ member)
  have isText : ([marker] ++ natBytes size ++ crlf ++ rest).dropPrefix? [marker] =
      some (natBytes size ++ crlf ++ rest) :=
    dropPrefix?_iff.mpr (by simp only [List.append_assoc])
  have isRest : ((natBytes size ++ crlf ++ rest).drop (natBytes size).length).dropPrefix? crlf =
      some rest := by
    rw [List.append_assoc, List.drop_left, dropPrefix?_iff]
  simp only [readHeader, isText, Option.bind_eq_bind, Option.bind_some, isDigits,
    readNumber_natBytes, isRest]

theorem readBulk_text (value rest : CString) :
    readBulk (bulkText value ++ rest) = some (value, rest) := by
  have isHeader : readHeader 36 (bulkText value ++ rest) =
      some (value.length, value ++ (crlf ++ rest)) := by
    rw [bulkText, List.append_assoc _ value, List.append_assoc _ (value ++ crlf),
      List.append_assoc value]
    exact readHeader_text 36 value.length (value ++ (crlf ++ rest))
  have isRest : ((value ++ (crlf ++ rest)).drop value.length).dropPrefix? crlf = some rest := by
    rw [List.drop_left, dropPrefix?_iff]
  simp only [readBulk, isHeader, Option.bind_eq_bind, Option.bind_some, isRest, List.take_left]

theorem argumentText_eq {argument : CString} (inMemory : argument.length < 2 ^ 63) :
    argumentText argument = bulkText argument := by
  rw [argumentText, printInteger_length inMemory]
  rfl

theorem readBulks_text {args : List CString} (inMemory : ∀ argument ∈ args, argument.length < 2 ^ 63)
    (rest : CString) : readBulks args.length (args.flatMap argumentText ++ rest) = some (args, rest) := by
  induction args with
  | nil => rfl
  | cons argument args ih =>
      rw [List.forall_mem_cons] at inMemory
      rw [List.flatMap_cons, argumentText_eq inMemory.1, List.append_assoc, List.length_cons, readBulks,
        readBulk_text]
      simp only [Option.bind_eq_bind, Option.bind_some, ih inMemory.2]

theorem commandsExact (client : Client) : CommandsExact client := by
  intro args inMemory areInMemory
  refine ⟨commandText args, rfl, fun rest => ?_⟩
  have isHeader : readHeader 42 (commandText args ++ rest) =
      some (args.length, args.flatMap argumentText ++ rest) := by
    rw [commandText, printInteger_length inMemory, List.append_assoc]
    exact readHeader_text 42 args.length (args.flatMap argumentText ++ rest)
  simp only [readArray, isHeader, Option.bind_eq_bind, Option.bind_some,
    readBulks_text areInMemory rest]

theorem readLineLoop_fst (stream : Stream) {buf : CString} (short : buf.length ≤ 8192) :
    (readLineLoop buf stream).1 = (buf ++ stream.flatten.takeWhile (· != 10)).take 8192 := by
  generalize isBytes : stream.flatten = bytes
  induction bytes generalizing buf stream with
  | nil =>
      have isLength := length_recv stream
      rw [isBytes, List.length_nil] at isLength
      rw [readLineLoop, if_pos (by omega), List.takeWhile_nil, List.append_nil,
        List.take_of_length_le short]
  | cons b bytes ih =>
      rcases recv_one isBytes with ⟨later, isRead, isLater⟩
      rw [readLineLoop]
      simp only [isRead, List.length_singleton, Nat.one_ne_zero, if_false, List.headD_cons]
      by_cases isEnd : b = 10
      · rw [if_pos isEnd, isEnd, List.takeWhile_cons_of_neg (by decide), List.append_nil,
          List.take_of_length_le short]
      rw [if_neg isEnd, List.takeWhile_cons_of_pos (p := fun x => x != 10) (bne_iff_ne.mpr isEnd),
        SmtpClient.kept]
      split
      next full =>
        rw [ih later short isLater, List.take_append_of_le_length full,
          List.take_append_of_le_length full]
      next notFull =>
        rw [ih later (by rw [List.length_append, List.length_singleton]; omega) isLater,
          List.append_assoc, List.singleton_append]

theorem httpConnReadLine_fst (conn : TinoxConn) :
    (httpConnReadLine conn).1 = firstLine conn.incoming.flatten := by
  rw [httpConnReadLine, firstLine, readLineLoop_fst _ (Nat.zero_le _), List.nil_append]
  rfl

theorem valueLoop_eq (bytes : List Int64) (len : Int64) :
    valueLoop bytes len =
      if len.toInt.toNat ≤ bytes.length then some (bytes.take len.toInt.toNat) else none := by
  rw [valueLoop]
  induction len.toInt.toNat with
  | zero => rw [if_pos (Nat.zero_le _)]; rfl
  | succ size ih =>
      rw [List.range_succ, List.mapM_append, ih]
      by_cases inside : size < bytes.length
      · rw [if_pos (Nat.le_of_lt inside), if_pos (Nat.succ_le_of_lt inside), List.take_add_one,
          List.getElem?_eq_getElem inside]
        simp [List.getElem?_eq_getElem inside]
      · rw [if_neg (fun within => inside (Nat.lt_of_succ_le within))]
        split
        · simp [List.getElem?_eq_none (Nat.not_lt.mp inside)]
        · rfl

theorem length_readLoop_le (remaining : Nat) (stream : Stream) :
    (readLoop remaining stream).1.length ≤ remaining := by
  fun_induction readLoop remaining stream with
  | case1 => exact Nat.le_refl 0
  | case2 remaining stream some got positive rest ih =>
      have isGot : got.1.length ≤ min remaining 4096 := length_recv_le _ _
      have isRest : rest.1.length ≤ remaining - got.1.length := ih
      rw [List.length_append]
      omega
  | case3 => exact Nat.zero_le _

theorem length_httpConnReadN_le (conn : TinoxConn) (n : Int64) :
    (httpConnReadN conn n).1.length ≤ n.toInt.toNat := by
  rw [httpConnReadN]
  split
  · exact Nat.zero_le _
  · rw [List.length_map]
    exact length_readLoop_le _ _

theorem toInt_add_two {len : Int64} (large : 2 ^ 63 - 2 ≤ len.toInt) : (len + 2).toInt < 0 := by
  have high := Int64.toInt_lt len
  have isTwo : (2 : Int64).toInt = 2 := rfl
  rw [Int64.toInt_add, isTwo, Int.bmod_def]
  omega

/-- The line says that there is no value. -/
def NoBulk (line : CString) : Prop :=
  (literal "$").isPrefixOf line = false ∨ line = literal "$-1"

theorem noBulk_iff (line : CString) :
    (!(literal "$").isPrefixOf line || line == literal "$-1") = true ↔ NoBulk line := by
  rw [Bool.or_eq_true, Bool.not_eq_true', beq_iff_eq, NoBulk]

theorem get_noBulk {client : Client} (key : CString)
    (noBulk : NoBulk (firstLine client.conn.incoming.flatten)) :
    ∃ after, get client key = some ([], after) ∧ after.getFound = false := by
  rw [← httpConnReadLine_fst, ← noBulk_iff] at noBulk
  exact ⟨_, if_pos noBulk, rfl⟩

theorem get_bulk {client : Client} (key : CString)
    (isBulk : ¬NoBulk (firstLine client.conn.incoming.flatten)) {result : CString × Client}
    (isResult : get client key = some result) :
    result.2.getFound = true ∧ NulFree result.1 ∧ result.1.length + 2 < 2 ^ 63 := by
  rw [← httpConnReadLine_fst, ← noBulk_iff] at isBulk
  rw [get] at isResult
  have isMap := (if_neg isBulk).symm.trans isResult
  rcases Option.map_eq_some_iff.mp isMap with ⟨value, isValue, rfl⟩
  refine ⟨rfl, fun isNul => absurd (List.mem_takeWhile_imp isNul) (by decide), ?_⟩
  generalize tinoxStringToInt _ = len at isValue
  rw [valueLoop_eq] at isValue
  split at isValue
  next within =>
    have isTake := Option.some.inj isValue
    have isShort := length_cString_le (value.map lowByte)
    have isRead := length_httpConnReadN_le
      (httpConnReadLine (sendCommand client [literal "GET", key]).conn).2 (len + 2)
    rw [List.length_map, ← isTake, List.length_take] at isShort
    change (cString (value.map lowByte)).length + 2 < 2 ^ 63
    rw [← isTake]
    by_contra isLong
    have isNegative : (len + 2).toInt < 0 := toInt_add_two (by omega)
    omega
  next => exact (Option.some_ne_none _ isValue.symm).elim

theorem get_notFound_iff (client : Client) (key : CString) :
    (∃ result, get client key = some result ∧ result.2.getFound = false) ↔
      NoBulk (firstLine client.conn.incoming.flatten) := by
  constructor
  · rintro ⟨result, isResult, notFound⟩
    by_contra isBulk
    exact Bool.false_ne_true (notFound.symm.trans (get_bulk key isBulk isResult).1)
  · intro noBulk
    rcases get_noBulk key noBulk with ⟨after, isResult, notFound⟩
    exact ⟨_, isResult, notFound⟩

theorem httpConnReadLine_header {conn : TinoxConn} {size : Nat} {rest : CString}
    (isStream : conn.incoming.flatten = 36 :: natBytes size ++ crlf ++ rest)
    (small : size < 2 ^ 64) :
    ∃ later, httpConnReadLine conn = (36 :: natBytes size, { conn with incoming := later }) ∧
      later.flatten = rest := by
  have isLine : conn.incoming.flatten = (36 :: natBytes size ++ [13]) ++ 10 :: rest := by
    rw [isStream]
    simp [crlf]
  have notLf : 10 ∉ 36 :: natBytes size ++ [13] := by
    have noDigit := notMem_natBytes (b := 10) rfl size
    simp [noDigit]
  have notNul : 0 ∉ 36 :: natBytes size := by
    have noDigit := notMem_natBytes (b := 0) rfl size
    simp [noDigit]
  have isShort : ([] : CString).length + (36 :: natBytes size ++ [13]).length ≤ 8192 := by
    have isSmall := length_natBytes_le small
    simp only [List.length_nil, List.length_append, List.length_cons]
    omega
  rcases readLineLoop_line notLf isShort isLine with ⟨later, isRead, isLater⟩
  refine ⟨later, ?_, isLater⟩
  rw [httpConnReadLine, isRead, List.nil_append]
  dsimp only
  rw [stripped_concat]
  exact congrArg (fun line => (line, _)) (cString_eq_iff.mpr notNul)

theorem not_noBulk (size : Nat) : ¬ NoBulk (36 :: natBytes size) := by
  rintro (notPrefix | isNil)
  · exact Bool.noConfusion (notPrefix.symm.trans rfl)
  · have isSign : '-'.toUInt8 ∈ natBytes size := by
      rw [(List.cons_eq_cons.mp isNil).2]
      decide
    exact notMem_natBytes rfl _ isSign

theorem tinoxBytesToString_byteValue {value : CString} (nulFree : NulFree value) :
    tinoxBytesToString (value.map byteValue) = value := by
  have isSame : lowByte ∘ byteValue = id := funext lowByte_byteValue
  rw [tinoxBytesToString, List.map_map, isSame, List.map_id]
  exact cString_eq_iff.mpr nulFree

theorem get_bulkText {client : Client} (key : CString) {value rest : CString}
    (isStream : client.conn.incoming.flatten = bulkText value ++ rest) (nulFree : NulFree value)
    (small : value.length + 2 < 2 ^ 63) :
    ∃ after, get client key = some (value, after) ∧ after.getFound = true ∧
      after.conn.incoming.flatten = rest := by
  generalize isSent : (sendCommand client [literal "GET", key]).conn = conn
  have isHead : conn.incoming.flatten =
      36 :: natBytes value.length ++ crlf ++ (value ++ crlf ++ rest) := by
    rw [← isSent]
    change client.conn.incoming.flatten = _
    rw [isStream]
    simp [bulkText]
  rcases httpConnReadLine_header isHead (by omega) with ⟨later, isHeader, isLater⟩
  -- The length and its two bytes more do not wrap.
  have isLength : tinoxStringToInt ((36 :: natBytes value.length).drop 1) =
      Int64.ofNat value.length := tinoxStringToInt_natBytes value.length
  have isSum : Int64.ofNat value.length + 2 = Int64.ofNat (value ++ crlf).length := by
    rw [List.length_append, Int64.ofNat_add]
    rfl
  have isBits : bits (Int64.ofNat (value ++ crlf).length) = (value ++ crlf).length := by
    refine bits_ofNat ?_
    rw [List.length_append]
    change value.length + 2 < 2 ^ 64
    omega
  rcases httpConnReadN_spec { conn with incoming := later } isBits
    (by rw [isBits, List.length_append]; exact small) isLater with ⟨last, isBytes, isLast⟩
  refine ⟨⟨{ conn with incoming := last }, true⟩, ?_, rfl, isLast⟩
  have isInt : (Int64.ofNat value.length).toInt.toNat = value.length := by
    rw [Int64.toInt_ofNat_of_lt (by omega), Int.toNat_natCast]
  have isTake : ((value ++ crlf).map byteValue).take value.length = value.map byteValue := by
    rw [List.map_append, List.take_left' (List.length_map _)]
  have isValue := (noBulk_iff (36 :: natBytes value.length)).not.mpr (not_noBulk value.length)
  rw [get]
  simp only [isSent, isHeader, isLength, isSum, isBytes]
  rw [if_neg isValue, valueLoop_eq, isInt, if_pos (by simp), isTake, Option.map_some,
    tinoxBytesToString_byteValue nulFree]

theorem get_value_iff {client : Client} (key : CString) {value rest : CString}
    (isStream : client.conn.incoming.flatten = bulkText value ++ rest) :
    (∃ after, get client key = some (value, after) ∧ after.getFound = true ∧
      after.conn.incoming.flatten = rest) ↔ NulFree value ∧ value.length + 2 < 2 ^ 63 := by
  constructor
  · rintro ⟨after, isResult, found, -⟩
    by_cases noBulk : NoBulk (firstLine client.conn.incoming.flatten)
    · rcases get_noBulk key noBulk with ⟨other, isOther, notFound⟩
      obtain rfl : other = after := (Prod.ext_iff.mp (Option.some.inj (isOther.symm.trans isResult))).2
      exact absurd (notFound.symm.trans found) Bool.false_ne_true
    · exact (get_bulk key noBulk isResult).2
  · rintro ⟨nulFree, small⟩
    exact get_bulkText key isStream nulFree small

/-- Commands are exact, and replies are exact if and only if a value that comes has no NUL and the
first line of what comes instead says that there is none. -/
theorem exact_iff (client : Client) (key : CString) :
    CommandsExact client ∧ RepliesExact client key ↔
      (∀ value rest, client.conn.incoming.flatten = bulkText value ++ rest →
        NulFree value ∧ value.length + 2 < 2 ^ 63) ∧
      ((∀ value rest, client.conn.incoming.flatten ≠ bulkText value ++ rest) →
        NoBulk (firstLine client.conn.incoming.flatten)) := by
  rw [and_iff_right (commandsExact client), RepliesExact, get_notFound_iff]
  refine and_congr_left' ?_
  exact forall_congr' fun value => forall_congr' fun rest => forall_congr' fun isStream =>
    get_value_iff key isStream

theorem notFound_of_repliesExact {client : Client} {key : CString} (isExact : RepliesExact client key)
    (noBulk : readBulk client.conn.incoming.flatten = none) :
    (get client key).map (fun result => result.2.getFound) = some false := by
  rcases isExact.2 fun value rest isStream => by
    rw [isStream, readBulk_text] at noBulk
    exact Option.some_ne_none _ noBulk with ⟨result, isResult, notFound⟩
  rw [isResult, Option.map_some, notFound]

/-- A connection that ends inside a value ends the process, and a length that is no number is found. -/
theorem brokenReplies_notExact :
    ¬RepliesExact ⟨⟨[literal "$5\r\nab"], [], false⟩, false⟩ (literal "k") ∧
      ¬RepliesExact ⟨⟨[literal "$x\r\n"], [], false⟩, false⟩ (literal "k") := by
  constructor <;> exact fun isExact =>
    absurd (notFound_of_repliesExact isExact (by with_unfolding_all decide))
      (by with_unfolding_all decide)

end Tinox.Net.RedisClient
