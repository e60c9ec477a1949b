import Tinox.Auth.Claims
import Tinox.Formats.Base64
import Tinox.Net.Http2Frames
import Tinox.Runtime.JsonTexts

/-!
# JSON web tokens

`Jwt::encode` writes a token with HS256, and `Jwt::decode` and `Jwt::verify` decide in the same
way whether one is accepted.
-/

namespace Tinox.Auth.Jwt

open Tinox.Runtime Tinox.Net Tinox.Formats.Base64 JsonText Probing

/-- `Jwt::stringToBytes`; a string is as long as `strlen` says. -/
def stringToBytes (s : CString) : List Int64 :=
  (cString s).map fun c => byteValue c &&& 0xFF

/-- `Jwt::bytesToString`. -/
def bytesToString (b : List Int64) : CString :=
  tinoxBytesToString b

def dot : CString := literal "."

/-- The header that `Jwt::encode` writes. -/
def headerJson : CString :=
  literal "\x7b\"alg\":\"HS256\",\"typ\":\"JWT\"\x7d"

variable {fuel : Nat} {payload : Claims}

section Tokens

/- The bits of the `double` that `atof` reads, the text of `%g`, and `hmacSha256Bytes`. -/
variable (atof : CString → UInt64) (printFloat : UInt64 → CString)
  (hmacSha256Bytes : List Int64 → List Int64 → List Int64)

/-- The third segment of a token. -/
def signature (message secret : CString) : CString :=
  encodeUrlBytes (hmacSha256Bytes (stringToBytes message) (stringToBytes secret))

/-- `Jwt::encode`. -/
def encode (fuel : Nat) (payload : Claims) (secret : CString) : Option CString :=
  (jsonStringify printFloat fuel (.object payload)).map fun payloadJson =>
    let headerB64 := encodeUrlBytes (stringToBytes headerJson)
    let payloadB64 := encodeUrlBytes (stringToBytes payloadJson)
    let message := headerB64 ++ dot ++ payloadB64
    message ++ dot ++ signature hmacSha256Bytes message secret

/-- `Jwt::decodeSegment`. -/
def decodeSegment (fuel : Nat) (part : CString) : Option Claims :=
  (jsonParse atof fuel (some (bytesToString (decodeUrlBytes part)))).map asTable

/-- `header.contains("alg") && header["alg"].getString() == "HS256"`. -/
def isHs256 (header : Claims) : Bool :=
  (claim header (literal "alg")).any fun alg => getString alg = literal "HS256"

/- What `asInt` returns for the claim of a name, and `Time::now() / 1000`. -/
variable (asInt : CString → JsonValue → Int64) (now : Int64)

/-- `payload.contains("exp") && now > payload["exp"].asInt()`. -/
def isExpired (payload : Claims) : Bool :=
  (claim payload (literal "exp")).any fun exp => asInt (literal "exp") exp < now

/-- `payload.contains("nbf") && now < payload["nbf"].asInt()`. -/
def isEarly (payload : Claims) : Bool :=
  (claim payload (literal "nbf")).any fun nbf => now < asInt (literal "nbf") nbf

/-- `Jwt::checkTemporalClaims`; what is thrown. -/
def checkTemporalClaims (payload : Claims) : Option CString :=
  if isExpired asInt now payload then some (literal "Token expired")
  else if isEarly asInt now payload then some (literal "Token not yet valid (nbf)")
  else none

/-- `Jwt::decode`; `none` when the nesting is deeper than the fuel. -/
def decode (fuel : Nat) (token secret : CString) : Option (Except CString Claims) :=
  match token.splitOn 46 with
  | [part0, part1, part2] =>
      (decodeSegment atof fuel part0).bind fun header =>
        if isHs256 header = false then
          some (.error (literal "Unexpected alg header (expected HS256)"))
        else if signature hmacSha256Bytes (part0 ++ dot ++ part1) secret ≠ part2 then
          some (.error (literal "Invalid signature"))
        else
          (decodeSegment atof fuel part1).map fun payload =>
            match checkTemporalClaims asInt now payload with
            | some thrown => .error thrown
            | none => .ok payload
  | _ => some (.error (literal "Invalid JWT format"))

/-- `Jwt::verify`. -/
def verify (fuel : Nat) (token secret : CString) : Option Bool :=
  match token.splitOn 46 with
  | [part0, part1, part2] =>
      (decodeSegment atof fuel part0).bind fun header =>
        if isHs256 header = false then some false
        else if signature hmacSha256Bytes (part0 ++ dot ++ part1) secret ≠ part2 then some false
        else
          (decodeSegment atof fuel part1).map fun payload =>
            if isExpired asInt now payload then false
            else if isEarly asInt now payload then false
            else true
  | _ => some false

/-- A token of three segments, with the algorithm and the signature that are wanted. -/
structure Signed (fuel : Nat) (token secret part0 part1 : CString) (header payload : Claims) :
    Prop where
  isSplit : token.splitOn 46 =
    [part0, part1, signature hmacSha256Bytes (part0 ++ dot ++ part1) secret]
  isHeader : decodeSegment atof fuel part0 = some header
  isAlgorithm : isHs256 header = true
  isPayload : decodeSegment atof fuel part1 = some payload

theorem decode_ok_iff (fuel : Nat) (token secret : CString) (payload : Claims) :
    decode atof hmacSha256Bytes asInt now fuel token secret = some (.ok payload) ↔
      (∃ part0 part1 header,
        Signed atof hmacSha256Bytes fuel token secret part0 part1 header payload) ∧
      isExpired asInt now payload = false ∧ isEarly asInt now payload = false := by
  constructor
  · intro isDecoded
    unfold decode at isDecoded
    split at isDecoded
    · rename_i part0 part1 part2 isSplit
      rw [Option.bind_eq_some_iff] at isDecoded
      obtain ⟨header, isHeader, isDecoded⟩ := isDecoded
      split at isDecoded
      · simp at isDecoded
      · rename_i isAlgorithm
        split at isDecoded
        · simp at isDecoded
        · rename_i isSignature
          rw [not_not] at isSignature
          rw [Option.map_eq_some_iff] at isDecoded
          obtain ⟨payload', isPayload, isDecoded⟩ := isDecoded
          unfold checkTemporalClaims at isDecoded
          cases isExp : isExpired asInt now payload' <;> cases isNbf : isEarly asInt now payload' <;>
            simp [isExp, isNbf] at isDecoded
          subst isDecoded
          constructor
          · exact ⟨part0, part1, header, by rw [isSplit, isSignature], isHeader,
              by simpa using isAlgorithm, isPayload⟩
          · exact ⟨isExp, isNbf⟩
    · simp at isDecoded
  · rintro ⟨⟨part0, part1, header, isSplit, isHeader, isAlgorithm, isPayload⟩, notExpired, notEarly⟩
    simp [decode, isSplit, isHeader, isAlgorithm, isPayload, checkTemporalClaims, notExpired,
      notEarly]

theorem verify_true_iff (fuel : Nat) (token secret : CString) :
    verify atof hmacSha256Bytes asInt now fuel token secret = some true ↔
      ∃ part0 part1 header payload,
        Signed atof hmacSha256Bytes fuel token secret part0 part1 header payload ∧
        isExpired asInt now payload = false ∧ isEarly asInt now payload = false := by
  constructor
  · intro isVerified
    unfold verify at isVerified
    split at isVerified
    · rename_i part0 part1 part2 isSplit
      rw [Option.bind_eq_some_iff] at isVerified
      obtain ⟨header, isHeader, isVerified⟩ := isVerified
      split at isVerified
      · simp at isVerified
      · rename_i isAlgorithm
        split at isVerified
        · simp at isVerified
        · rename_i isSignature
          rw [not_not] at isSignature
          rw [Option.map_eq_some_iff] at isVerified
          obtain ⟨payload, isPayload, isVerified⟩ := isVerified
          cases isExp : isExpired asInt now payload <;> cases isNbf : isEarly asInt now payload <;>
            simp [isExp, isNbf] at isVerified
          exact ⟨part0, part1, header, payload, ⟨by rw [isSplit, isSignature], isHeader,
            by simpa using isAlgorithm, isPayload⟩, isExp, isNbf⟩
    · simp at isVerified
  · rintro ⟨part0, part1, header, payload, ⟨isSplit, isHeader, isAlgorithm, isPayload⟩, notExpired,
      notEarly⟩
    simp [verify, isSplit, isHeader, isAlgorithm, isPayload, notExpired, notEarly]

end Tokens

variable {value : JsonValue}

section Times

variable (truncate : UInt64 → Int64) (now : Int64)

/-- What `asInt` can return. -/
def Reads (asInt : CString → JsonValue → Int64) : Prop :=
  ∀ name value, AsInt truncate value (asInt name value)

/-- The claims `exp` and `nbf` are integers where they are present. -/
structure Timed (payload : Claims) : Prop where
  exp : ∀ value, claim payload (literal "exp") = some value → ∃ n, value = .int n
  nbf : ∀ value, claim payload (literal "nbf") = some value → ∃ n, value = .int n

/-- One of the claims refuses the token whatever `asInt` returns for it. -/
def Refused (payload : Claims) : Prop :=
  (∃ value, claim payload (literal "exp") = some value ∧ ∀ n, AsInt truncate value n → n < now) ∨
    ∃ value, claim payload (literal "nbf") = some value ∧ ∀ n, AsInt truncate value n → now < n

/-- The reading that accepts as much as possible. -/
def mildest (_ : CString) : JsonValue → Int64
  | .null => 0
  | .bool value => if value then 1 else 0
  | .int value => value
  | .float bits => truncate bits
  | _ => now

theorem reads_mildest : Reads truncate (mildest truncate now) := by
  intro name value
  cases value with
  | null => exact .null
  | bool value => exact .bool value
  | int value => exact .int value
  | float bits => exact .float bits
  | string bytes => exact .string bytes now
  | array values => exact .array values now
  | object m => exact .object m now
  | intArray values => exact .intArray values now

theorem mildest_of_reads {n : Int64} (reads : AsInt truncate value n) (name : CString) :
    mildest truncate now name value = n ∨ mildest truncate now name value = now := by
  cases reads <;> simp [mildest]

variable {truncate now}

theorem mildest_accepts (notRefused : ¬ Refused truncate now payload) :
    isExpired (mildest truncate now) now payload = false ∧
      isEarly (mildest truncate now) now payload = false := by
  rw [Refused, not_or] at notRefused
  push Not at notRefused
  obtain ⟨expPasses, nbfPasses⟩ := notRefused
  constructor
  · rw [isExpired, Option.any_eq_false]
    intro value isExp
    obtain ⟨n, reads, notBefore⟩ := expPasses value isExp
    rw [decide_eq_false_iff_not]
    obtain isN | isNow := mildest_of_reads truncate now reads (literal "exp")
    · rw [isN]
      exact notBefore
    · rw [isNow]
      exact Int64.lt_irrefl
  · rw [isEarly, Option.any_eq_false]
    intro value isNbf
    obtain ⟨n, reads, notAfter⟩ := nbfPasses value isNbf
    rw [decide_eq_false_iff_not]
    obtain isN | isNow := mildest_of_reads truncate now reads (literal "nbf")
    · rw [isN]
      exact notAfter
    · rw [isNow]
      exact Int64.lt_irrefl

variable {asInt : CString → JsonValue → Int64}

theorem Refused.refuses (refused : Refused truncate now payload) (reads : Reads truncate asInt)
    (notExpired : isExpired asInt now payload = false)
    (notEarly : isEarly asInt now payload = false) : False := by
  obtain ⟨value, isExp, before⟩ | ⟨value, isNbf, after⟩ := refused
  · rw [isExpired, isExp, Option.any_some, decide_eq_false_iff_not] at notExpired
    exact notExpired (before _ (reads _ value))
  · rw [isEarly, isNbf, Option.any_some, decide_eq_false_iff_not] at notEarly
    exact notEarly (after _ (reads _ value))

theorem Timed.same (timed : Timed payload) (reads : Reads truncate asInt) :
    isExpired asInt now payload = isExpired (mildest truncate now) now payload ∧
      isEarly asInt now payload = isEarly (mildest truncate now) now payload := by
  have isInt : ∀ name n, asInt name (.int n) = n := by
    intro name n
    exact AsInt.of_number truncate rfl (reads name (.int n))
  have isMildest : ∀ name n, mildest truncate now name (.int n) = n := fun _ _ => rfl
  constructor
  · rw [isExpired, isExpired]
    cases isExp : claim payload (literal "exp") with
    | none => rw [Option.any_none, Option.any_none]
    | some value =>
        obtain ⟨n, rfl⟩ := timed.exp value isExp
        rw [Option.any_some, Option.any_some, isInt, isMildest]
  · rw [isEarly, isEarly]
    cases isNbf : claim payload (literal "nbf") with
    | none => rw [Option.any_none, Option.any_none]
    | some value =>
        obtain ⟨n, rfl⟩ := timed.nbf value isNbf
        rw [Option.any_some, Option.any_some, isInt, isMildest]

end Times

section Acceptance

variable (atof : CString → UInt64) (truncate : UInt64 → Int64)
  (hmacSha256Bytes : List Int64 → List Int64 → List Int64) (now : Int64)

/-- The tokens that should be accepted, and their payloads. -/
structure Acceptable (fuel : Nat) (token secret : CString) (payload : Claims) : Prop where
  token : ∃ part0 part1 header, token.splitOn 46 = [part0, part1, encodeUrlBytes
      (hmacSha256Bytes (stringToBytes (part0 ++ dot ++ part1)) (stringToBytes secret))] ∧
    jsonParse atof fuel (some (bytesToString (decodeUrlBytes part0))) = some (.object header) ∧
    claim header (literal "alg") = some (.string (literal "HS256")) ∧
    decodeSegment atof fuel part1 = some payload
  exp : ∀ value, claim payload (literal "exp") = some value → ∃ n, value = .int n ∧ now ≤ n
  nbf : ∀ value, claim payload (literal "nbf") = some value → ∃ n, value = .int n ∧ n ≤ now

/-- `verify` and `decode` accept the same tokens, and these should be accepted. -/
def AcceptsRightly (fuel : Nat) (token secret : CString) : Prop :=
  ∀ asInt asInt', Reads truncate asInt → Reads truncate asInt' →
    (verify atof hmacSha256Bytes asInt now fuel token secret = some true ↔
      ∃ payload, decode atof hmacSha256Bytes asInt' now fuel token secret = some (.ok payload)) ∧
    ∀ payload, decode atof hmacSha256Bytes asInt' now fuel token secret = some (.ok payload) →
      Acceptable atof hmacSha256Bytes now fuel token secret payload

/-- The payload of a signed token has integers for its times, or refuses it. -/
def TimesAreIntegers (fuel : Nat) (token secret : CString) : Prop :=
  ∀ part0 part1 header payload,
    Signed atof hmacSha256Bytes fuel token secret part0 part1 header payload →
      Timed payload ∨ Refused truncate now payload

theorem claim_create (name : CString) : claim tinoxMapCreate name = none :=
  Represents.create.lookup name

theorem decodeSegment_hs256 {part : CString} {header : Claims}
    (isHeader : decodeSegment atof fuel part = some header) (isAlgorithm : isHs256 header = true) :
    jsonParse atof fuel (some (bytesToString (decodeUrlBytes part))) = some (.object header) ∧
      claim header (literal "alg") = some (.string (literal "HS256")) := by
  rw [isHs256, Option.any_eq_true] at isAlgorithm
  obtain ⟨alg, isAlg, isName⟩ := isAlgorithm
  rw [decide_eq_true_eq] at isName
  rw [decodeSegment, Option.map_eq_some_iff] at isHeader
  obtain ⟨value, isValue, isTable⟩ := isHeader
  constructor
  · cases value with
    | object m =>
        rw [asTable] at isTable
        rw [isValue, isTable]
    | _ =>
        rw [asTable] at isTable
        · rw [← isTable, claim_create] at isAlg
          contradiction
        · rintro _ ⟨⟩
  · cases alg with
    | string bytes =>
        rw [getString] at isName
        rw [isAlg, isName]
    | _ =>
        have noName : ([] : CString) ≠ literal "HS256" := by decide
        exact absurd isName noName

theorem acceptsRightly_iff (fuel : Nat) (token secret : CString) :
    AcceptsRightly atof truncate hmacSha256Bytes now fuel token secret ↔
      TimesAreIntegers atof truncate hmacSha256Bytes now fuel token secret := by
  constructor
  · intro accepts part0 part1 header payload signed
    by_cases refused : Refused truncate now payload
    · exact Or.inr refused
    · left
      have isMildest := reads_mildest truncate now
      have isDecoded := (decode_ok_iff atof hmacSha256Bytes (mildest truncate now) now fuel token
        secret payload).mpr ⟨⟨part0, part1, header, signed⟩, mildest_accepts refused⟩
      have acceptable := (accepts _ _ isMildest isMildest).2 payload isDecoded
      constructor
      · intro value isExp
        obtain ⟨n, isInt, -⟩ := acceptable.exp value isExp
        exact ⟨n, isInt⟩
      · intro value isNbf
        obtain ⟨n, isInt, -⟩ := acceptable.nbf value isNbf
        exact ⟨n, isInt⟩
  · intro areIntegers asInt asInt' reads reads'
    constructor
    · rw [verify_true_iff]
      constructor
      · rintro ⟨part0, part1, header, payload, signed, notExpired, notEarly⟩
        refine ⟨payload, ?_⟩
        rw [decode_ok_iff]
        constructor
        · exact ⟨part0, part1, header, signed⟩
        · obtain timed | refused := areIntegers part0 part1 header payload signed
          · rw [(timed.same reads').1, (timed.same reads').2, ← (timed.same reads).1,
              ← (timed.same reads).2]
            exact ⟨notExpired, notEarly⟩
          · exact (refused.refuses reads notExpired notEarly).elim
      · rintro ⟨payload, isDecoded⟩
        rw [decode_ok_iff] at isDecoded
        obtain ⟨⟨part0, part1, header, signed⟩, notExpired, notEarly⟩ := isDecoded
        refine ⟨part0, part1, header, payload, signed, ?_⟩
        obtain timed | refused := areIntegers part0 part1 header payload signed
        · rw [(timed.same reads).1, (timed.same reads).2, ← (timed.same reads').1,
            ← (timed.same reads').2]
          exact ⟨notExpired, notEarly⟩
        · exact (refused.refuses reads' notExpired notEarly).elim
    · intro payload isDecoded
      rw [decode_ok_iff] at isDecoded
      obtain ⟨⟨part0, part1, header, signed⟩, notExpired, notEarly⟩ := isDecoded
      obtain timed | refused := areIntegers part0 part1 header payload signed
      · constructor
        · obtain ⟨isObject, isAlg⟩ := decodeSegment_hs256 atof signed.isHeader signed.isAlgorithm
          exact ⟨part0, part1, header, signed.isSplit, isObject, isAlg, signed.isPayload⟩
        · intro value isExp
          obtain ⟨n, rfl⟩ := timed.exp value isExp
          have isInt := AsInt.of_number truncate rfl (reads' (literal "exp") (.int n))
          rw [isExpired, isExp, Option.any_some, decide_eq_false_iff_not, isInt, Int64.not_lt]
            at notExpired
          exact ⟨n, rfl, notExpired⟩
        · intro value isNbf
          obtain ⟨n, rfl⟩ := timed.nbf value isNbf
          have isInt := AsInt.of_number truncate rfl (reads' (literal "nbf") (.int n))
          rw [isEarly, isNbf, Option.any_some, decide_eq_false_iff_not, isInt, Int64.not_lt]
            at notEarly
          exact ⟨n, rfl, notEarly⟩
      · exact (refused.refuses reads' notExpired notEarly).elim

end Acceptance

/-- The elements of an array. -/
def elements : JsonValue → Option (List JsonValue)
  | .array values => some values
  | .intArray values => some (values.map .int)
  | _ => none

/-- Values of one type with the same contents; tables are the functions from their names to their
values. -/
inductive Same : JsonValue → JsonValue → Prop where
  | null : Same .null .null
  | bool (value : Bool) : Same (.bool value) (.bool value)
  | int (value : Int64) : Same (.int value) (.int value)
  | float (bits : UInt64) : Same (.float bits) (.float bits)
  | string (bytes : CString) : Same (.string bytes) (.string bytes)
  | array {array array' : JsonValue} {values others : List JsonValue} :
      elements array = some values → elements array' = some others →
      values.length = others.length →
      (∀ (i : Nat) value other, values[i]? = some value → others[i]? = some other →
        Same value other) →
      Same array array'
  | object {m m' : Claims} : (∀ name, (claim m name).isSome = (claim m' name).isSome) →
      (∀ name value other, claim m name = some value → claim m' name = some other →
        Same value other) →
      Same (.object m) (.object m')

theorem means_int {n : Int64} (isMeant : Means value (.int n.toInt)) : value = .int n := by
  generalize isNumber : (Value.int n.toInt) = meaning at isMeant
  cases isMeant with
  | int value =>
      rw [Value.int.injEq, Int64.toInt_inj] at isNumber
      rw [isNumber]
  | _ => contradiction

theorem means_array {items : List Value} (isMeant : Means value (.array items)) :
    ∃ values, elements value = some values ∧ values.length = items.length ∧
      ∀ (i : Nat) element item, values[i]? = some element → items[i]? = some item →
        Means element item := by
  cases isMeant with
  | intArray values =>
      refine ⟨_, rfl, by rw [List.length_map, integerItems, List.length_map], ?_⟩
      intro i element item isElement isItem
      rw [List.getElem?_map, Option.map_eq_some_iff] at isElement
      obtain ⟨n, isNumber, rfl⟩ := isElement
      rw [integerItems, List.getElem?_map, isNumber] at isItem
      cases isItem
      exact .int n
  | array sameLength each => exact ⟨_, rfl, sameLength, each⟩

theorem Same.of_means {other : JsonValue} {meaning : Value} (isMeant : Means value meaning)
    (alsoMeant : Means other meaning) : Same value other := by
  induction isMeant generalizing other with
  | null =>
      cases alsoMeant
      exact .null
  | bool value =>
      cases alsoMeant
      exact .bool value
  | int value =>
      rw [means_int alsoMeant]
      exact .int value
  | string bytes =>
      cases alsoMeant
      exact .string bytes
  | intArray values =>
      obtain ⟨others, areElements, sameLength, each⟩ := means_array alsoMeant
      apply Same.array rfl areElements
      · rw [List.length_map, sameLength, integerItems, List.length_map]
      · intro i value' other' isValue isOther
        rw [List.getElem?_map, Option.map_eq_some_iff] at isValue
        obtain ⟨n, isNumber, rfl⟩ := isValue
        have isItem : (integerItems values)[i]? = some (.int n.toInt) := by
          rw [integerItems, List.getElem?_map, isNumber]
          rfl
        rw [means_int (each i other' _ isOther isItem)]
        exact .int n
  | @array values items sameLength _ inductionHypothesis =>
      obtain ⟨others, areElements, otherLength, each⟩ := means_array alsoMeant
      apply Same.array rfl areElements (sameLength.trans otherLength.symm)
      intro i value' other' isValue isOther
      have isIn : i < items.length := by
        rw [← sameLength]
        exact (List.getElem?_eq_some_iff.mp isValue).1
      have isItem := List.getElem?_eq_getElem isIn
      exact inductionHypothesis i value' _ isValue isItem (each i other' _ isOther isItem)
  | @object m members sameNames _ inductionHypothesis =>
      cases alsoMeant with
      | object otherNames otherValues =>
          apply Same.object
          · intro name
            exact (sameNames name).trans (otherNames name).symm
          · intro name value' other' isValue isOther
            have isMember := sameNames name
            rw [claim] at isValue isOther
            rw [isValue, Option.isSome_some] at isMember
            obtain ⟨item, isItem⟩ := Option.isSome_iff_exists.mp isMember.symm
            exact inductionHypothesis name value' item isValue isItem
              (otherValues name other' item isOther isItem)

theorem bits_stringToBytes (s : CString) : ∀ b ∈ stringToBytes s, bits b < 256 := by
  intro b isMem
  rw [stringToBytes, List.mem_map] at isMem
  obtain ⟨c, -, rfl⟩ := isMem
  rw [bits_and]
  exact Nat.mod_lt _ (by decide)

theorem bytesToString_segment (s : CString) :
    bytesToString (decodeUrlBytes (encodeUrlBytes (stringToBytes s))) = cString s := by
  have isByte : ∀ c : UInt8, lowByte (byteValue c &&& 0xFF) = c := by
    intro c
    rw [lowByte_and, lowByte_byteValue]
  have isString : (cString s).map (fun c => lowByte (byteValue c &&& 0xFF)) = cString s := by
    simp only [isByte, List.map_id']
  rw [decodeUrlBytes_encodeUrlBytes _ (bits_stringToBytes s), bytesToString, tinoxBytesToString,
    stringToBytes, List.map_map]
  rw [Function.comp_def, isString]
  apply List.takeWhile_eq_self_iff.mpr
  intro b isMem
  exact @List.mem_takeWhile_imp _ (fun b => b != 0) _ _ isMem

theorem splitOn_token {part0 part1 part2 : CString} (noDot0 : 46 ∉ part0) (noDot1 : 46 ∉ part1)
    (noDot2 : 46 ∉ part2) :
    (part0 ++ dot ++ part1 ++ dot ++ part2).splitOn 46 = [part0, part1, part2] := by
  have isDot : dot = [46] := by decide
  have isToken : part0 ++ dot ++ part1 ++ dot ++ part2
      = List.intercalate [46] [part0, part1, part2] := by
    simp [isDot, List.intercalate, List.intersperse]
  rw [isToken]
  apply List.splitOn_intercalate
  · simp [noDot0, noDot1, noDot2]
  · simp

section RoundTrips

variable (atof : CString → UInt64) (printFloat : UInt64 → CString)

/-- A payload that is not changed by writing it as JSON and reading it. -/
def Survives (payload : Claims) : Prop :=
  ∃ enough, ∀ fuel ≥ enough, ∃ text value,
    jsonStringify printFloat fuel (.object payload) = some text ∧
    jsonParse atof fuel (some (cString text)) = some value ∧
    Same (.object (asTable value)) (.object payload)

theorem survives_of_built (built : Built NulFree (.object payload)) :
    Survives atof printFloat payload := by
  obtain ⟨w, writes⟩ := built.writes printFloat
  obtain ⟨result, bound, isRead, denotes⟩ := readsAs_written atof w
  obtain ⟨bound', isWritten⟩ := writes.text []
  have nulFree : NulFree w.text := nulFree_text w ((writes.all NulFree).mpr built)
  have isText : cString w.text = w.text := by
    apply List.takeWhile_eq_self_iff.mpr
    intro b isMem
    rw [bne_iff_ne]
    rintro rfl
    exact nulFree isMem
  have isSame := Same.of_means denotes.means writes.means
  have isObject : result = .object (asTable result) := by
    cases isSame with
    | object => rfl
    | array _ notArray => exact nomatch notArray
  refine ⟨max bound bound', fun fuel isEnough => ⟨w.text, result, ?_, ?_, ?_⟩⟩
  · exact isWritten fuel (Nat.le_trans (Nat.le_max_right _ _) isEnough)
  · rw [isText]
    exact isRead fuel (Nat.le_trans (Nat.le_max_left _ _) isEnough)
  · rw [← isObject]
    exact isSame

variable (truncate : UInt64 → Int64) (hmacSha256Bytes : List Int64 → List Int64 → List Int64)
  (now : Int64)

/-- The token of a payload is decoded to this payload. -/
def RoundTrips (payload : Claims) (secret : CString) : Prop :=
  ∀ asInt, Reads truncate asInt → ∃ enough, ∀ fuel ≥ enough, ∃ token result,
    encode printFloat hmacSha256Bytes fuel payload secret = some token ∧
    decode atof hmacSha256Bytes asInt now fuel token secret = some (.ok result) ∧
    Same (.object result) (.object payload)

theorem split_encode {secret token : CString}
    (isToken : encode printFloat hmacSha256Bytes fuel payload secret = some token) :
    ∃ text, jsonStringify printFloat fuel (.object payload) = some text ∧
      ∃ message, token.splitOn 46 = [encodeUrlBytes (stringToBytes headerJson),
        encodeUrlBytes (stringToBytes text), signature hmacSha256Bytes message secret] ∧
        message = encodeUrlBytes (stringToBytes headerJson) ++ dot ++
          encodeUrlBytes (stringToBytes text) := by
  rw [encode, Option.map_eq_some_iff] at isToken
  obtain ⟨text, isText, rfl⟩ := isToken
  refine ⟨text, isText, _, ?_, rfl⟩
  exact splitOn_token (noDot_encodeUrlBytes _) (noDot_encodeUrlBytes _) (noDot_encodeUrlBytes _)

/-- The header as it is written. -/
def header : Written :=
  .object [(literal "alg", .string (literal "HS256")), (literal "typ", .string (literal "JWT"))]

theorem text_header : header.text = headerJson := by
  decide

theorem cString_header : cString headerJson = headerJson := by
  decide

theorem decodeSegment_header : ∃ enough, ∀ fuel ≥ enough, ∃ result,
    decodeSegment atof fuel (encodeUrlBytes (stringToBytes headerJson)) = some result ∧
      isHs256 result = true := by
  obtain ⟨result, bound, isRead, denotes⟩ := readsAs_written atof header
  rw [text_header] at isRead
  rw [header, Written.value] at denotes
  cases denotes with
  | @object m _ f represents sameNames sameValues =>
      have isItem : lastValue (membersValues [(literal "alg", Written.string (literal "HS256")),
          (literal "typ", Written.string (literal "JWT"))]) (literal "alg")
          = some (.string (literal "HS256")) := by
        have apart : literal "typ" ≠ literal "alg" := by decide
        simp [lastValue, membersValues, Written.value, apart]
      have isName := sameNames (literal "alg")
      rw [isItem, Option.isSome_some] at isName
      obtain ⟨value, isValue⟩ := Option.isSome_iff_exists.mp isName
      have isString := sameValues _ value _ isValue isItem
      cases isString
      refine ⟨bound, fun fuel isEnough => ⟨m, ?_, ?_⟩⟩
      · rw [decodeSegment, bytesToString_segment, cString_header, isRead fuel isEnough]
        rfl
      · rw [isHs256, claim, represents.lookup, isValue, Option.any_some, getString]
        exact decide_eq_true rfl

theorem noTimes {result : Claims} (isSame : Same (.object result) (.object payload))
    (noExp : claim payload (literal "exp") = none) (noNbf : claim payload (literal "nbf") = none)
    (asInt : CString → JsonValue → Int64) :
    isExpired asInt now result = false ∧ isEarly asInt now result = false := by
  cases isSame with
  | object sameNames _ =>
      have isExp := sameNames (literal "exp")
      have isNbf := sameNames (literal "nbf")
      rw [noExp, Option.isSome_none, Option.isSome_eq_false_iff, Option.isNone_iff_eq_none] at isExp
      rw [noNbf, Option.isSome_none, Option.isSome_eq_false_iff, Option.isNone_iff_eq_none] at isNbf
      rw [isExpired, isEarly, isExp, isNbf]
      exact ⟨rfl, rfl⟩
  | array notArray _ => exact nomatch notArray

theorem roundTrips_iff (noExp : claim payload (literal "exp") = none)
    (noNbf : claim payload (literal "nbf") = none) (secret : CString) :
    RoundTrips atof printFloat truncate hmacSha256Bytes now payload secret ↔
      Survives atof printFloat payload := by
  constructor
  · intro roundTrips
    obtain ⟨enough, isRoundTrip⟩ := roundTrips _ (reads_mildest truncate now)
    refine ⟨enough, fun fuel isEnough => ?_⟩
    obtain ⟨token, result, isToken, isDecoded, isSame⟩ := isRoundTrip fuel isEnough
    obtain ⟨text, isText, message, isSplit, -⟩ :=
      split_encode printFloat hmacSha256Bytes isToken
    rw [decode_ok_iff] at isDecoded
    obtain ⟨⟨part0, part1, header, signed⟩, -⟩ := isDecoded
    have isParts := isSplit.symm.trans signed.isSplit
    simp only [List.cons.injEq] at isParts
    have isPayload := signed.isPayload
    rw [← isParts.2.1, decodeSegment, bytesToString_segment, Option.map_eq_some_iff] at isPayload
    obtain ⟨value, isValue, rfl⟩ := isPayload
    exact ⟨text, value, isText, isValue, isSame⟩
  · rintro ⟨enough, survives⟩ asInt reads
    obtain ⟨enough', isHeader⟩ := decodeSegment_header atof
    refine ⟨max enough enough', fun fuel isEnough => ?_⟩
    obtain ⟨text, value, isText, isValue, isSame⟩ :=
      survives fuel (Nat.le_trans (Nat.le_max_left _ _) isEnough)
    obtain ⟨header, isHeader, isAlgorithm⟩ :=
      isHeader fuel (Nat.le_trans (Nat.le_max_right _ _) isEnough)
    have isToken : ∃ token, encode printFloat hmacSha256Bytes fuel payload secret = some token := by
      rw [encode, isText]
      exact ⟨_, rfl⟩
    obtain ⟨token, isToken⟩ := isToken
    obtain ⟨text', isText', message, isSplit, isMessage⟩ :=
      split_encode printFloat hmacSha256Bytes isToken
    obtain rfl := Option.some_inj.mp (isText.symm.trans isText')
    refine ⟨token, asTable value, isToken, ?_, isSame⟩
    rw [decode_ok_iff]
    constructor
    · refine ⟨_, encodeUrlBytes (stringToBytes text), header, ?_, isHeader, isAlgorithm, ?_⟩
      · rw [isSplit, isMessage]
      · rw [decodeSegment, bytesToString_segment, isValue]
        rfl
    · exact noTimes now isSame noExp noNbf asInt

end RoundTrips

/-- `verify` and `decode` agree and accept rightly exactly when the times of a signed token are
integers, and a token brings its payload back exactly when JSON does, which it does without
floats. -/
theorem accepts_and_roundTrips_iff (atof : CString → UInt64) (printFloat : UInt64 → CString)
    (truncate : UInt64 → Int64) (hmacSha256Bytes : List Int64 → List Int64 → List Int64)
    (now : Int64) :
    (∀ fuel token secret, AcceptsRightly atof truncate hmacSha256Bytes now fuel token secret ↔
      TimesAreIntegers atof truncate hmacSha256Bytes now fuel token secret) ∧
    (∀ payload secret, claim payload (literal "exp") = none → claim payload (literal "nbf") = none →
      (RoundTrips atof printFloat truncate hmacSha256Bytes now payload secret ↔
        Survives atof printFloat payload)) ∧
    ∀ payload, Built NulFree (.object payload) → Survives atof printFloat payload := by
  constructor
  · exact acceptsRightly_iff atof truncate hmacSha256Bytes now
  · constructor
    · intro payload secret noExp noNbf
      exact roundTrips_iff atof printFloat truncate hmacSha256Bytes now noExp noNbf secret
    · exact fun payload => survives_of_built atof printFloat

theorem exists_oneMember {name : CString} (isName : NulFree name) (isValue : Built NulFree value)
    (fits : (tinoxMapSet stringHash 16 tinoxMapCreate name value).isSome = true) :
    ∃ payload : Claims, Built NulFree (.object payload) ∧ claim payload name = some value ∧
      ∀ other, other ≠ name → claim payload other = none := by
  obtain ⟨payload, isSet⟩ := Option.isSome_iff_exists.mp fits
  have inOrder : InOrder stringHash (tinoxMapCreate : Claims) name := by
    refine Or.inr fun n _ value isLive => ?_
    rw [tinoxMapCreate, slotAt_replicate] at isLive
    cases isLive
  have represents := Represents.create.set inOrder isSet
  have isClaim : claim payload name = some value := by
    rw [claim, represents.lookup, Function.update_self]
  have noOther : ∀ other, other ≠ name → claim payload other = none := by
    intro other isOther
    rw [claim, represents.lookup, Function.update_of_ne isOther]
  have isMember : ∀ key item, claim payload key = some item → key = name ∧ item = value := by
    intro key item isItem
    by_cases isKey : key = name
    · subst isKey
      exact ⟨rfl, Option.some_inj.mp (isItem.symm.trans isClaim)⟩
    · rw [noOther key isKey] at isItem
      contradiction
  refine ⟨payload, ?_, isClaim, noOther⟩
  apply Built.object (Made.create.set isSet)
  · intro key item isItem
    rw [(isMember key item isItem).1]
    exact isName
  · intro key item isItem
    rw [(isMember key item isItem).2]
    exact isValue

/-- The digest of the message whose payload has `x` for `sub`, under the key `secret`. -/
def subjectDigest : List Int64 :=
  [76, 161, 2, 95, 250, 69, 253, 188, 229, 114, 10, 243, 26, 38, 225, 192, 189, 237, 146, 80, 195,
    224, 183, 68, 19, 53, 213, 64, 44, 52, 210, 166]

/-- A token about `x` is decoded to what was encoded. -/
theorem accepts_and_roundTrips_iff_subject : ∃ payload,
    claim payload (literal "sub") = some (.string (literal "x")) ∧
      RoundTrips (fun _ => 0) (fun _ => []) (fun _ => 0) (fun _ _ => subjectDigest) 1700000000
        payload (literal "secret") := by
  have isName : NulFree (literal "sub") := by
    rw [NulFree]
    decide
  have isValue : NulFree (literal "x") := by
    rw [NulFree]
    decide
  obtain ⟨payload, built, isSubject, noOther⟩ :=
    exists_oneMember isName (.string isValue) (by decide)
  refine ⟨payload, isSubject, ?_⟩
  have isIff := accepts_and_roundTrips_iff (fun _ => 0) (fun _ => []) (fun _ => 0)
    (fun _ _ => subjectDigest) 1700000000
  exact (isIff.2.1 payload (literal "secret") (noOther _ (by decide)) (noOther _ (by decide))).mpr
    (isIff.2.2 payload built)

/-- The digest of the message whose payload has `x` for `exp`, under the key `secret`. -/
def expDigest : List Int64 :=
  [129, 169, 23, 81, 206, 174, 65, 226, 166, 240, 193, 230, 70, 150, 190, 187, 231, 61, 58, 143,
    172, 34, 213, 27, 188, 242, 155, 123, 65, 187, 100, 214]

/-- A token whose `exp` is a string is accepted. -/
theorem stringExp_accepted : ¬ ∀ fuel token, AcceptsRightly (fun _ => 0) (fun _ => 0)
    (fun _ _ => expDigest) 1700000000 fuel token (literal "secret") := by
  intro accepts
  have isName : NulFree (literal "exp") := by
    rw [NulFree]
    decide
  have isValue : NulFree (literal "x") := by
    rw [NulFree]
    decide
  obtain ⟨payload, built, isExp, noOther⟩ :=
    exists_oneMember isName (.string isValue) (by decide)
  obtain ⟨enough, survives⟩ := survives_of_built (fun _ => 0) (fun _ => []) built
  obtain ⟨enough', isHeader⟩ := decodeSegment_header fun _ => 0
  obtain ⟨text, value, isText, isRead, isSame⟩ := survives _ (Nat.le_max_left enough enough')
  obtain ⟨header, isHeader, isAlgorithm⟩ := isHeader _ (Nat.le_max_right enough enough')
  have isToken : ∃ token, encode (fun _ => []) (fun _ _ => expDigest) (max enough enough') payload
      (literal "secret") = some token := by
    rw [encode, isText]
    exact ⟨_, rfl⟩
  obtain ⟨token, isToken⟩ := isToken
  obtain ⟨text', isText', message, isSplit, isMessage⟩ := split_encode _ _ isToken
  obtain rfl := Option.some_inj.mp (isText.symm.trans isText')
  -- the claim is still there, and is a string
  have isString : claim (asTable value) (literal "exp") = some (.string (literal "x")) ∧
      claim (asTable value) (literal "nbf") = none := by
    cases isSame with
    | array notArray _ => exact nomatch notArray
    | object sameNames sameValues =>
        constructor
        · have isThere := sameNames (literal "exp")
          rw [isExp, Option.isSome_some] at isThere
          obtain ⟨item, isItem⟩ := Option.isSome_iff_exists.mp isThere
          have isSame := sameValues _ item _ isItem isExp
          cases isSame with
          | string => exact isItem
          | array _ notArray => exact nomatch notArray
        · have notThere := sameNames (literal "nbf")
          rw [noOther (literal "nbf") (by decide), Option.isSome_none, Option.isSome_eq_false_iff,
            Option.isNone_iff_eq_none] at notThere
          exact notThere
  have isDecoded : decode (fun _ => 0) (fun _ _ => expDigest) (mildest (fun _ => 0) 1700000000)
      1700000000 (max enough enough') token (literal "secret") = some (.ok (asTable value)) := by
    rw [decode_ok_iff]
    constructor
    · refine ⟨_, encodeUrlBytes (stringToBytes text), header, ?_, isHeader, isAlgorithm, ?_⟩
      · rw [isSplit, isMessage]
      · rw [decodeSegment, bytesToString_segment, isRead]
        rfl
    · rw [isExpired, isEarly, isString.1, isString.2, Option.any_some, Option.any_none]
      exact ⟨by decide, rfl⟩
  have isMildest := reads_mildest (fun _ => 0) 1700000000
  have acceptable := (accepts _ token _ _ isMildest isMildest).2 _ isDecoded
  obtain ⟨n, isInt, -⟩ := acceptable.exp _ isString.1
  contradiction

end Tinox.Auth.Jwt
