import Tinox.Json.Texts
import Tinox.Runtime.JsonReads

/-!
# Arrays of JSON in memory

An array of integers is kept in another form than every other array.  The functions that look at an
array know one of the two forms, `jsonIntArrayFromJson` both.
-/

namespace Tinox.Runtime

open JsonText

/-- `jsonIsArray`; a pointer may be null. -/
def jsonIsArray : Option JsonValue → Int64
  | some (.array _) => 1
  | _ => 0

/-- `jsonArrayLen`. -/
def jsonArrayLen : Option JsonValue → Int
  | some (.array values) => values.length
  | _ => 0

/-- `jsonArrayGet`; `none` when it ends the process. -/
def jsonArrayGet (value : Option JsonValue) (index : Int) : Option JsonValue :=
  if index < 0 ∨ jsonArrayLen value ≤ index then none
  else
    match value with
    | some (.array values) => values[index.toNat]?
    | _ => none

section Integers

/- The conversion of the bits of a `double` to an integer. -/
variable (truncate : UInt64 → Int64)

/-- The integer that `jsonIntArrayFromJson` takes from an element. -/
def asInteger : JsonValue → Int64
  | .int value => value
  | .float bits => truncate bits
  | _ => 0

/-- `jsonIntArrayFromJson`. -/
def jsonIntArrayFromJson : Option JsonValue → List Int64
  | some (.intArray values) => values
  | some (.array values) => values.map (asInteger truncate)
  | _ => []

/-- The observers of a value agree with the elements of an array. -/
structure Observed (value : JsonValue) (elements : List JsonValue) : Prop where
  isArray : jsonIsArray (some value) = 1
  length : jsonArrayLen (some value) = elements.length
  get : ∀ i (inside : i < elements.length), jsonArrayGet (some value) i = some elements[i]
  integers : jsonIntArrayFromJson truncate (some value) = elements.map (asInteger truncate)

theorem observed_array (values : List JsonValue) : Observed truncate (.array values) values where
  isArray := rfl
  length := rfl
  get := by
    intro i inside
    have within : ¬ ((i : Int) < 0 ∨ (values.length : Int) ≤ i) := by omega
    rw [jsonArrayGet, jsonArrayLen, if_neg within, Int.toNat_natCast]
    exact List.getElem?_eq_getElem inside
  integers := rfl

theorem not_observed_intArray (values : List Int64) (elements : List JsonValue) :
    ¬ Observed truncate (.intArray values) elements := by
  intro observed
  cases observed.isArray

end Integers

theorem bytes_start (text : Text) : ∃ b tail, text.bytes = b :: tail ∧ Starts b := by
  cases text with
  | null | string items | emptyArray inner | array elements | emptyObject inner | object members =>
      exact ⟨_, _, rfl, by decide⟩
  | bool value => cases value <;> exact ⟨_, _, rfl, by decide⟩
  | int number => exact text_starts (.int number)
  | decimal number =>
      rw [Text.bytes, Decimal.bytes]
      cases number.minus with
      | true => exact ⟨_, _, rfl, by decide⟩
      | false => exact ⟨_, _, rfl, starts_digit number.first⟩

theorem skip_bytes (before : List Space) (text : Text) (p : CString) :
    jsonSkipWs (spaces before ++ (text.bytes ++ p)) = text.bytes ++ p := by
  rcases bytes_start text with ⟨b, tail, isText, starts⟩
  rw [jsonSkipWs_spaces, isText, List.cons_append, jsonSkipWs_cons starts.1]

theorem skip_alone (text : Text) : jsonSkipWs text.bytes = text.bytes ++ [] := by
  simpa [spaces] using skip_bytes [] text []

theorem texts_start (elements : Texts) (p : CString) :
    ∃ b tail, jsonSkipWs (elements.bytes ++ p) = b :: tail ∧ Starts b := by
  have first : ∃ before element rest, elements.bytes ++ p = spaces before ++ (Text.bytes element ++ rest) := by
    cases elements with
    | last before element after =>
        exact ⟨before, element, spaces after ++ p, by simp [Texts.bytes]⟩
    | more before element after others =>
        exact ⟨before, element, spaces after ++ ','.toUInt8 :: (others.bytes ++ p), by simp [Texts.bytes]⟩
  rcases first with ⟨before, element, rest, isText⟩
  rcases bytes_start element with ⟨b, tail, isStart, starts⟩
  exact ⟨b, tail ++ rest, by rw [isText, skip_bytes, isStart, List.cons_append], starts⟩

/-- `atof` reads a number up to what does not go on with it. -/
def StopsBehind (atof : CString → UInt64) : Prop :=
  ∀ (number : Decimal) (p : CString), Boundary p → atof (number.bytes ++ p) = atof number.bytes

theorem skipDigits_text (digits : List (Fin 10)) {p : CString}
    (noDigit : ∀ b, p.head? = some b → isDigit b = false) :
    skipDigits (digitText digits ++ p) = p := by
  induction digits with
  | nil =>
      cases p with
      | nil => rfl
      | cons b p => exact List.dropWhile_cons_of_neg (by rw [noDigit b rfl]; nofun)
  | cons digit digits ih =>
      rw [digitText, List.map_cons, List.cons_append, skipDigits,
        List.dropWhile_cons_of_pos (isDigit_byte digit)]
      exact ih

theorem readDigits_rest (val : Int64) (p : CString) : (readDigits val p).2 = skipDigits p := by
  induction p generalizing val with
  | nil => rfl
  | cons b p ih =>
      rw [readDigits, skipDigits]
      split
      · next isDigit => rw [ih, List.dropWhile_cons_of_pos isDigit, skipDigits]
      · next notDigit => rw [List.dropWhile_cons_of_neg notDigit]

/-- What stands behind the digits of a number starts with a point or a letter. -/
theorem decimal_tail (number : Decimal) (p : CString) :
    ∃ b tail, number.fractionBytes ++ (number.exponentBytes ++ p) = b :: tail ∧
      (b = '.'.toUInt8 ∨ b = 'e'.toUInt8 ∨ b = 'E'.toUInt8) := by
  rw [Decimal.fractionBytes, Decimal.exponentBytes]
  by_cases noFraction : number.fraction = []
  · rw [if_pos noFraction]
    cases isExponent : number.exponent with
    | none => exact absurd isExponent (number.notInteger noFraction)
    | some exponent =>
        refine ⟨_, _, rfl, ?_⟩
        cases exponent.upper <;> simp
  · rw [if_neg noFraction]
    exact ⟨_, _, rfl, Or.inl rfl⟩

theorem decimal_sign (number : Decimal) (p : CString) : skipByte '-' (number.bytes ++ p) =
    digitText (number.first :: number.rest) ++ (number.fractionBytes ++ (number.exponentBytes ++ p)) := by
  rw [Decimal.bytes]
  cases number.minus with
  | true =>
      rw [if_pos rfl, List.singleton_append, List.cons_append, List.cons_append, skipByte_at]
      simp
  | false =>
      have apart : ∀ digit : Fin 10, ('0'.toUInt8 + UInt8.ofNat digit.val) ≠ '-'.toUInt8 := by decide
      rw [if_neg (by decide), List.nil_append, List.append_assoc, List.append_assoc]
      apply skipByte_ne
      rw [digitText, List.map_cons, List.cons_append, isAt_cons]
      exact decide_eq_false (apart number.first)

theorem decimal_digits (number : Decimal) (p : CString) :
    skipDigits (digitText (number.first :: number.rest) ++
      (number.fractionBytes ++ (number.exponentBytes ++ p))) =
      number.fractionBytes ++ (number.exponentBytes ++ p) := by
  rcases decimal_tail number p with ⟨b, tail, isTail, isLetter⟩
  apply skipDigits_text
  intro other isHead
  rw [isTail] at isHead
  cases isHead
  rcases isLetter with rfl | rfl | rfl <;> decide

theorem skipFraction_bytes (number : Decimal) {p : CString} (boundary : Boundary p) :
    skipFraction (number.fractionBytes ++ (number.exponentBytes ++ p)) = number.exponentBytes ++ p := by
  have stops : ∀ b, (number.exponentBytes ++ p).head? = some b → isDigit b = false ∧ b ≠ '.'.toUInt8 := by
    intro b isHead
    rw [Decimal.exponentBytes] at isHead
    cases isExponent : number.exponent with
    | none =>
        rw [isExponent] at isHead
        exact ⟨(boundary b isHead).1, (boundary b isHead).2.1⟩
    | some exponent =>
        rw [isExponent] at isHead
        cases isHead
        cases exponent.upper <;> decide
  rw [Decimal.fractionBytes]
  split
  · rw [List.nil_append, skipFraction, if_neg]
    cases isRest : number.exponentBytes ++ p with
    | nil => nofun
    | cons b rest =>
        rw [isAt_cons, decide_eq_true_eq]
        exact (stops b (by rw [isRest]; rfl)).2
  · rw [List.cons_append, skipFraction, isAt_cons, if_pos (decide_eq_true rfl), List.tail_cons]
    exact skipDigits_text _ fun b isHead => (stops b isHead).1

theorem skipExponent_bytes (number : Decimal) {p : CString} (boundary : Boundary p) :
    skipExponent (number.exponentBytes ++ p) = p := by
  have stops : ∀ b, p.head? = some b → isDigit b = false := fun b isHead => (boundary b isHead).1
  rw [Decimal.exponentBytes]
  cases number.exponent with
  | none =>
      dsimp only
      rw [List.nil_append, skipExponent, if_neg]
      cases p with
      | nil => nofun
      | cons b p =>
          rw [isAt_cons, isAt_cons, Bool.or_eq_true, decide_eq_true_eq, decide_eq_true_eq]
          exact fun either => either.elim (boundary b rfl).2.2.1 (boundary b rfl).2.2.2
  | some exponent =>
      have isLetter : (isAt 'e' (exponent.bytes ++ p) || isAt 'E' (exponent.bytes ++ p)) = true := by
        rw [Exponent.bytes, List.cons_append, isAt_cons, isAt_cons]
        cases exponent.upper <;> rfl
      have isDigits := skipDigits_text (exponent.first :: exponent.rest) stops
      have notSign : ∀ digit : Fin 10, ('0'.toUInt8 + UInt8.ofNat digit.val) ≠ '+'.toUInt8 ∧
          ('0'.toUInt8 + UInt8.ofNat digit.val) ≠ '-'.toUInt8 := by
        decide
      dsimp only
      rw [skipExponent, if_pos isLetter, Exponent.bytes, List.cons_append, List.tail_cons,
        List.append_assoc]
      cases exponent.sign with
      | none =>
          have noSign := notSign exponent.first
          rw [Sign.bytes, List.nil_append, if_neg]
          · exact isDigits
          · rw [digitText, List.map_cons, List.cons_append, isAt_cons, isAt_cons, Bool.or_eq_true,
              decide_eq_true_eq, decide_eq_true_eq]
            exact fun either => either.elim noSign.1 noSign.2
      | plus | minus => exact isDigits

theorem jsonParseNumber_decimal (atof : CString → UInt64) (number : Decimal) {p : CString}
    (boundary : Boundary p) :
    jsonParseNumber atof (number.bytes ++ p) = (.float (atof (number.bytes ++ p)), p) := by
  rcases decimal_tail number p with ⟨b, tail, isTail, isLetter⟩
  have shorter : p.length ≠ (number.fractionBytes ++ (number.exponentBytes ++ p)).length := by
    have isRest := congrArg List.length (skipExponent_bytes number boundary)
    have some : number.fractionBytes ++ number.exponentBytes ≠ [] := by
      intro isNone
      rw [← List.append_assoc, isNone, List.nil_append] at isTail
      rw [isTail] at boundary
      have notLetter := boundary b rfl
      rcases isLetter with rfl | rfl | rfl
      · exact notLetter.2.1 rfl
      · exact notLetter.2.2.1 rfl
      · exact notLetter.2.2.2 rfl
    have positive := List.length_pos_of_ne_nil some
    rw [← List.append_assoc, List.length_append]
    omega
  have longer : p.length ≠ (number.bytes ++ p).length := by
    rw [Decimal.bytes, digitText, List.map_cons]
    simp only [List.length_append, List.length_cons]
    omega
  rw [jsonParseNumber]
  simp only [decimal_sign, decimal_digits, skipFraction_bytes number boundary,
    skipExponent_bytes number boundary, if_neg longer, if_neg shorter]

section Reading

variable {atof : CString → UInt64}

/-- A text is read as a value, whatever follows it. -/
def Reads (atof : CString → UInt64) (text : Bytes) (value : JsonValue) : Prop :=
  ∀ {p rest : CString}, jsonSkipWs p = text ++ rest → Boundary rest →
    Eventually (fun fuel => jsonParseValue atof fuel p) (value, rest)

theorem reads_decimal (stops : StopsBehind atof) (number : Decimal) :
    Reads atof number.bytes (.float (atof number.bytes)) := by
  intro p rest skipped boundary
  rw [← stops number rest boundary, ← jsonParseNumber_decimal atof number boundary]
  rw [Decimal.bytes] at skipped ⊢
  cases isMinus : number.minus with
  | true =>
      rw [isMinus] at skipped
      exact read_numeric atof skipped (.inl rfl)
  | false =>
      rw [isMinus] at skipped
      exact read_numeric atof skipped (.inr ⟨number.first, rfl⟩)

theorem integers_decimal (number : Decimal) (values : List Int64) {p rest : CString}
    (skipped : jsonSkipWs p = number.bytes ++ rest) :
    Eventually (fun fuel => jsonParseIntegers fuel values p) none := by
  rcases bytes_start (.decimal number) with ⟨first, others, isText, starts⟩
  rw [Text.bytes] at isText
  have skippedFirst : jsonSkipWs p = first :: (others ++ rest) := by
    rw [skipped, isText, List.cons_append]
  rcases @not_end ']' (by decide) _ _ _ skippedFirst starts.2 with ⟨notEmpty, notEnd⟩
  rcases decimal_tail number rest with ⟨b, tail, isTail, isLetter⟩
  have isNumber : (skipByte '-' (jsonSkipWs p)).head?.any isDigit = true := by
    rw [skipped, decimal_sign]
    exact isDigit_byte number.first
  have isRest : jsonSkipWs (readInteger (jsonSkipWs p)).2 = b :: tail := by
    rw [readInteger, readDigits_rest, skipped, decimal_sign, decimal_digits, isTail]
    apply jsonSkipWs_cons
    rcases isLetter with rfl | rfl | rfl <;> decide
  have noSeparator : (isAt ',' (b :: tail) || isAt ']' (b :: tail)) = false := by
    rw [isAt_cons, isAt_cons]
    rcases isLetter with rfl | rfl | rfl <;> decide
  refine Eventually.step (fun fuel => ?_) (Eventually.now none)
  rw [jsonParseIntegers, notEmpty, notEnd, isNumber]
  simp only [Bool.false_eq_true, if_false, Bool.not_true, isRest, noSeparator]

theorem reads_integer (number : Integer) :
    Reads atof number.bytes (.int (Int64.ofInt number.value)) :=
  fun skipped boundary => read_number atof skipped boundary

theorem integer_or_other (element : Text) : (∃ number, element = .int number) ∨
    element.isInteger = false ∧ ((∃ number, element = .decimal number) ∨
      ∃ b tail, element.bytes = b :: tail ∧ b ≠ '-'.toUInt8 ∧ isDigit b = false) := by
  cases element with
  | null | string items | emptyArray inner | array elements | emptyObject inner | object members =>
      exact Or.inr ⟨rfl, Or.inr ⟨_, _, rfl, by decide⟩⟩
  | bool value => cases value <;> exact Or.inr ⟨rfl, Or.inr ⟨_, _, rfl, by decide⟩⟩
  | int number => exact Or.inl ⟨number, rfl⟩
  | decimal number => exact Or.inr ⟨rfl, Or.inl ⟨number, rfl⟩⟩

theorem integers_other {element : Text} (notInteger : (∃ number, element = .decimal number) ∨
      ∃ b tail, element.bytes = b :: tail ∧ b ≠ '-'.toUInt8 ∧ isDigit b = false)
    (values : List Int64) {p rest : CString} (skipped : jsonSkipWs p = element.bytes ++ rest) :
    Eventually (fun fuel => jsonParseIntegers fuel values p) none := by
  rcases notInteger with ⟨number, rfl⟩ | ⟨b, tail, isText, notSign, notDigit⟩
  · exact integers_decimal number values skipped
  · rcases bytes_start element with ⟨first, others, isFirst, starts⟩
    rw [isText] at isFirst
    cases isFirst
    rw [isText] at skipped
    exact read_notInteger values skipped starts notSign notDigit

theorem integers_texts (elements : Texts) : ∃ integers : Option (List Int64),
    (∀ {p rest : CString} (values : List Int64),
      jsonSkipWs p = jsonSkipWs (elements.bytes ++ ']'.toUInt8 :: rest) →
      Eventually (fun fuel => jsonParseIntegers fuel values p)
        (integers.map fun found => (values ++ found, rest))) ∧
    match integers with
    | none => ∃ element ∈ elements.elements, element.isInteger = false
    | some found => (∀ element ∈ elements.elements, element.isInteger = true) ∧
        List.Forall₂ (fun (element : Text) value => Reads atof element.bytes (.int value))
          elements.elements found := by
  cases elements with
  | last before element after =>
      simp only [Texts.bytes, Texts.elements, List.append_assoc, skip_bytes]
      rcases integer_or_other element with ⟨number, rfl⟩ | ⟨isOther, notInteger⟩
      · refine ⟨some [Int64.ofInt number.value], fun {p rest} values skipped => ?_, by simp [Text.isInteger],
          .cons (reads_integer number) .nil⟩
        exact read_integer skipped rfl (Or.inr rfl) (read_integersEnd _ _)
      · refine ⟨none, fun values skipped => integers_other notInteger values skipped, element, ?_, isOther⟩
        exact List.mem_singleton_self element
  | more before element after others =>
      simp only [Texts.bytes, Texts.elements, List.append_assoc, skip_bytes]
      rcases integer_or_other element with ⟨number, rfl⟩ | ⟨isOther, notInteger⟩
      · have next (rest : CString) : skipByte ',' (','.toUInt8 :: others.bytes ++ ']'.toUInt8 :: rest) =
            others.bytes ++ ']'.toUInt8 :: rest := skipByte_at ',' _
        rcases integers_texts others with ⟨integers, later, isFound⟩
        refine ⟨integers.map (Int64.ofInt number.value :: ·), fun {p rest} values skipped => ?_, ?_⟩
        · have ended := @later _ rest (values ++ [Int64.ofInt number.value]) rfl
          rw [← next] at ended
          have read := read_integer skipped rfl (Or.inl rfl) ended
          cases integers <;> simpa using read
        · cases integers with
          | none =>
              rcases isFound with ⟨other, member, isOther⟩
              exact ⟨other, List.mem_cons_of_mem _ member, isOther⟩
          | some found =>
              refine ⟨?_, .cons (reads_integer number) isFound.2⟩
              exact List.forall_mem_cons.mpr ⟨rfl, isFound.1⟩
      · refine ⟨none, fun values skipped => integers_other notInteger values skipped, element, ?_, isOther⟩
        exact List.mem_cons_self ..

mutual

theorem reads_text (stops : StopsBehind atof) (text : Text) : ∃ value, Reads atof text.bytes value := by
  cases text with
  | null => exact ⟨.null, fun skipped _ => read_scalar atof skipped (by decide)⟩
  | bool value =>
      cases value with
      | true => exact ⟨.bool true, fun skipped _ => read_scalar atof skipped (by decide)⟩
      | false => exact ⟨.bool false, fun skipped _ => read_scalar atof skipped (by decide)⟩
  | int number => exact ⟨_, reads_integer number⟩
  | decimal number => exact ⟨_, reads_decimal stops number⟩
  | string items =>
      exact ⟨_, fun skipped _ => read_string atof skipped (jsonParseStringRaw_spec items _)⟩
  | emptyArray inner =>
      refine ⟨.intArray [], fun skipped _ => read_emptyArray atof inner ?_⟩
      rw [skipped, Text.bytes, List.append_assoc]
      rfl
  | array elements => exact ⟨_, (reads_array stops elements).choose_spec.1⟩
  | emptyObject inner =>
      refine ⟨.object jsonObjMapCreate, fun {p rest} skipped _ => ?_⟩
      rw [Text.bytes, List.append_assoc, List.cons_append] at skipped
      have inside : jsonSkipWs (spaces inner ++ (['}'.toUInt8] ++ rest)) = '}'.toUInt8 :: rest := by
        rw [jsonSkipWs_spaces]
        exact jsonSkipWs_cons (by decide) rest
      have ended := read_membersEnd atof jsonObjMapCreate rest
      rw [← inside] at ended
      exact read_object atof skipped ended
  | object members =>
      rcases reads_fields stops members Packed.create with ⟨m, f, -, read⟩
      refine ⟨.object m, fun {p rest} skipped _ => ?_⟩
      rw [Text.bytes, List.append_assoc, List.cons_append] at skipped
      exact read_object atof skipped (read (jsonSkipWs_idem _))

theorem reads_array (stops : StopsBehind atof) (elements : Texts) : ∃ value, Reads atof (Text.array elements).bytes value ∧
    ∃ values, List.Forall₂ (fun (element : Text) value => Reads atof element.bytes value)
      elements.elements values ∧
      ((∀ element ∈ elements.elements, element.isInteger = true) ∧ (∃ integers, value = .intArray integers) ∨
        (∃ element ∈ elements.elements, element.isInteger = false) ∧ value = .array values) := by
  have start {p rest : CString} (skipped : jsonSkipWs p = (Text.array elements).bytes ++ rest) :
      jsonSkipWs p = '['.toUInt8 :: (elements.bytes ++ (']'.toUInt8 :: rest)) := by
    rw [skipped, Text.bytes, List.append_assoc, List.cons_append]
    rfl
  rcases @integers_texts atof elements with ⟨integers, attempt, isFound⟩
  rcases reads_texts stops elements with ⟨values, areRead, read⟩
  cases integers with
  | none =>
      refine ⟨.array values, fun {p rest} skipped _ => ?_, values, areRead, Or.inr ⟨isFound, rfl⟩⟩
      rcases texts_start elements (']'.toUInt8 :: rest) with ⟨b, first, inner, starts⟩
      have innerAgain : jsonSkipWs (b :: first) = jsonSkipWs (elements.bytes ++ ']'.toUInt8 :: rest) := by
        rw [← inner, jsonSkipWs_idem]
      exact read_array atof (start skipped) inner starts (attempt [] innerAgain) (read [] innerAgain)
  | some found =>
      refine ⟨.intArray found, fun {p rest} skipped _ => ?_, values, areRead,
        Or.inl ⟨isFound.1, found, rfl⟩⟩
      rcases texts_start elements (']'.toUInt8 :: rest) with ⟨b, first, inner, starts⟩
      have innerAgain : jsonSkipWs (b :: first) = jsonSkipWs (elements.bytes ++ ']'.toUInt8 :: rest) := by
        rw [← inner, jsonSkipWs_idem]
      exact read_array atof (start skipped) inner starts (attempt [] innerAgain) (Eventually.now _)

theorem reads_texts (stops : StopsBehind atof) (elements : Texts) : ∃ values,
    List.Forall₂ (fun (element : Text) value => Reads atof element.bytes value) elements.elements values ∧
    ∀ {p rest : CString} (done : List JsonValue),
      jsonSkipWs p = jsonSkipWs (elements.bytes ++ ']'.toUInt8 :: rest) →
      Eventually (fun fuel => jsonParseElements atof fuel done p) (.array (done ++ values), rest) := by
  cases elements with
  | last before element after =>
      rcases reads_text stops element with ⟨value, reads⟩
      refine ⟨[value], .cons reads .nil, fun {p rest} done skipped => ?_⟩
      rcases texts_start (.last before element after) (']'.toUInt8 :: rest) with ⟨b, tail, isStart, starts⟩
      have skippedStart := skipped.trans isStart
      simp only [Texts.bytes, List.append_assoc, skip_bytes] at skipped
      rcases @boundary_next ']'.toUInt8 (by decide) after rest with ⟨boundary, skippedRest⟩
      refine read_element atof skippedStart starts (reads skipped boundary) ?_
      rw [skippedRest, skipByte_ne rfl, jsonSkipWs_cons (by decide)]
      exact read_elementsEnd atof (done ++ [value]) rest
  | more before element after others =>
      rcases reads_text stops element with ⟨value, reads⟩
      rcases reads_texts stops others with ⟨values, areRead, read⟩
      refine ⟨value :: values, .cons reads areRead, fun {p rest} done skipped => ?_⟩
      rcases texts_start (.more before element after others) (']'.toUInt8 :: rest) with
        ⟨b, tail, isStart, starts⟩
      have skippedStart := skipped.trans isStart
      simp only [Texts.bytes, List.append_assoc, skip_bytes, List.cons_append] at skipped
      rcases @boundary_next ','.toUInt8 (by decide) after (others.bytes ++ ']'.toUInt8 :: rest) with
        ⟨boundary, skippedRest⟩
      refine read_element atof skippedStart starts (reads skipped boundary) ?_
      rw [skippedRest, skipByte_at]
      have later := read (done ++ [value]) (jsonSkipWs_idem (others.bytes ++ ']'.toUInt8 :: rest))
      rwa [List.append_assoc] at later

theorem reads_fields (stops : StopsBehind atof) (members : Fields) {m : TinoxMap CString JsonValue}
    {f : CString → Option JsonValue} (packed : Packed m f) :
    ∃ m' f', Packed m' f' ∧ ∀ {p rest : CString},
      jsonSkipWs p = jsonSkipWs (members.bytes ++ '}'.toUInt8 :: rest) →
      Eventually (fun fuel => jsonParseMembers atof fuel m p) (.object m', rest) := by
  cases members with
  | last before name afterName beforeValue value after =>
      rcases reads_text stops value with ⟨result, reads⟩
      rcases packed.set (copiedString name) result with ⟨m', isSet, packed'⟩
      refine ⟨m', _, packed', fun {p rest} skipped => ?_⟩
      simp only [Fields.bytes, List.append_assoc, List.cons_append] at skipped
      rw [skip_name] at skipped
      rcases @boundary_next '}'.toUInt8 (by decide) after rest with ⟨boundary, skippedRest⟩
      have read := reads (skip_bytes beforeValue value _) boundary
      rw [← skip_colon afterName (spaces beforeValue ++ (value.bytes ++ _))] at read
      refine read_member atof skipped (jsonParseStringRaw_spec name _) read isSet ?_
      rw [skippedRest, skipByte_ne rfl]
      exact read_membersEnd atof m' rest
  | more before name afterName beforeValue value after others =>
      rcases reads_text stops value with ⟨result, reads⟩
      rcases packed.set (copiedString name) result with ⟨m', isSet, packed'⟩
      rcases reads_fields stops others packed' with ⟨m'', f'', packed'', later⟩
      refine ⟨m'', f'', packed'', fun {p rest} skipped => ?_⟩
      simp only [Fields.bytes, List.append_assoc, List.cons_append] at skipped
      rw [skip_name] at skipped
      rcases @boundary_next ','.toUInt8 (by decide) after (others.bytes ++ '}'.toUInt8 :: rest) with
        ⟨boundary, skippedRest⟩
      have read := reads (skip_bytes beforeValue value _) boundary
      rw [← skip_colon afterName (spaces beforeValue ++ (value.bytes ++ _))] at read
      refine read_member atof skipped (jsonParseStringRaw_spec name _) read isSet ?_
      rw [skippedRest, skipByte_at]
      exact later rfl

end

/-- `jsonParse` ends with this value on a text. -/
def ParsesTo (atof : CString → UInt64) (text : Bytes) (value : JsonValue) : Prop :=
  Eventually (fun fuel => jsonParse atof fuel (some text)) value

theorem Reads.parses {text : Bytes} {value : JsonValue} (reads : Reads atof text value)
    {p : CString} {after : List Space} (skipped : jsonSkipWs p = text ++ spaces after) :
    ParsesTo atof p value := by
  have boundary : Boundary (spaces after) := by
    rw [← List.append_nil (spaces after)]
    exact Boundary.spaces after nofun
  rcases reads skipped boundary with ⟨bound, read⟩
  exact ⟨bound, fun fuel enough => congrArg (Option.map Prod.fst) (read fuel enough)⟩

theorem Reads.parses_text {element : Text} {value : JsonValue} (reads : Reads atof element.bytes value) :
    ParsesTo atof element.bytes value :=
  @Reads.parses _ _ _ reads _ [] (skip_alone element)

end Reading

/-- The text of an array is read, each of its elements is read alone, and the observers of the array
agree with these elements. -/
def ArrayObserved (atof : CString → UInt64) (truncate : UInt64 → Int64) (array : ArrayText) : Prop :=
  ∃ value values, ParsesTo atof array.bytes value ∧
    List.Forall₂ (fun (element : Text) found => ParsesTo atof element.bytes found) array.elements values ∧
    Observed truncate value values

/-- The observers agree with the elements of an array exactly when an element is no integer. -/
theorem arrayObserved_iff {atof : CString → UInt64} (stops : StopsBehind atof)
    (truncate : UInt64 → Int64) (array : ArrayText) :
    ArrayObserved atof truncate array ↔ ∃ element ∈ array.elements, element.isInteger = false := by
  cases array with
  | empty before inner after =>
      rcases reads_text stops (.emptyArray inner) with ⟨value, reads⟩
      have isEmpty : Reads atof (Text.emptyArray inner).bytes (.intArray []) := by
        intro p rest skipped _
        apply read_emptyArray atof inner
        rw [skipped, Text.bytes, List.append_assoc]
        rfl
      have parses : ParsesTo atof (ArrayText.empty before inner after).bytes _ :=
        isEmpty.parses (skip_bytes _ _ _)
      constructor
      · rintro ⟨value, values, parsesValue, -, observed⟩
        rw [← parses.unique parsesValue] at observed
        exact absurd observed (not_observed_intArray truncate _ _)
      · rintro ⟨element, member, -⟩
        exact absurd member List.not_mem_nil
  | filled before elements after =>
      rcases reads_array stops elements with ⟨value, reads, values, areRead, either⟩
      have parses : ParsesTo atof (ArrayText.filled before elements after).bytes _ :=
        reads.parses (skip_bytes _ _ _)
      have areParsed := areRead.imp fun _ _ reads => Reads.parses_text reads
      constructor
      · rintro ⟨found, others, parsesFound, -, observed⟩
        rw [← parses.unique parsesFound] at observed
        rcases either with ⟨-, integers, rfl⟩ | ⟨isOther, -⟩
        · exact absurd observed (not_observed_intArray truncate _ _)
        · exact isOther
      · rintro ⟨element, member, isOther⟩
        rcases either with ⟨areIntegers, -⟩ | ⟨-, rfl⟩
        · exact absurd (areIntegers element member) (by rw [isOther]; nofun)
        · exact ⟨_, _, parses, areParsed, observed_array truncate values⟩

/-- An array of an integer and a literal. -/
theorem arrayObserved_iff_mixed : ArrayObserved (fun _ => 0) (fun _ => 0)
    (.filled [] (.more [] (.int ⟨false, 7, [], by decide, by decide⟩) [] (.last [.space] .null [])) []) := by
  apply (arrayObserved_iff (fun _ _ _ => rfl) _ _).mpr
  exact ⟨.null, List.mem_cons_of_mem _ (List.mem_singleton_self _), rfl⟩

/-- The array of the integer 7 is no array to its observers. -/
theorem oneInteger_notObserved : ¬ ArrayObserved (fun _ => 0) (fun _ => 0)
    (.filled [] (.last [] (.int ⟨false, 7, [], by decide, by decide⟩) []) []) := by
  rintro ⟨value, values, ⟨bound, isValue⟩, -, observed⟩
  have isRead : ∀ fuel, jsonParse (fun _ => 0) (fuel + 6) (some [91, 55, 93]) =
      some (.intArray [7]) := fun _ => rfl
  have same := (isValue (bound + 6) (Nat.le_add_right _ _)).symm.trans (isRead bound)
  cases same
  exact not_observed_intArray _ _ _ observed

end Tinox.Runtime
