import Tinox.Runtime.JsonWrites

/-!
# Reading what was written

All written texts are read back, also those that are not of the grammar.
-/

namespace Tinox.Runtime

open Probing JsonText

theorem written_starts (w : Written) : ∃ b tail, w.text = b :: tail ∧ Starts b := by
  cases w with
  | null | string bytes | array elements | object members => exact ⟨_, _, rfl, by decide⟩
  | bool value => cases value <;> exact ⟨_, _, rfl, by decide⟩
  | int value =>
      rcases printInteger_spec value with ⟨number, isText, -⟩
      rw [Written.text, ← isText]
      exact text_starts (.int number)

theorem written_integer_or_not (w : Written) : (∃ value, w = .int value) ∨
    ∃ b tail, w.text = b :: tail ∧ Starts b ∧ b ≠ '-'.toUInt8 ∧ isDigit b = false := by
  cases w with
  | null | string bytes | array elements | object members => exact Or.inr ⟨_, _, rfl, by decide⟩
  | bool value => cases value <;> exact Or.inr ⟨_, _, rfl, by decide⟩
  | int value => exact Or.inl ⟨value, rfl⟩

theorem skip_written (w : Written) (p : CString) : jsonSkipWs (w.text ++ p) = w.text ++ p := by
  rcases written_starts w with ⟨b, tail, isText, starts⟩
  rw [isText, List.cons_append, jsonSkipWs_cons starts.1]

theorem after_element {closing : UInt8} (isClosing : closing = ']'.toUInt8 ∨ closing = '}'.toUInt8)
    {texts : Bool → CString}
    (isTexts : (∀ first, texts first = []) ∨ ∃ inner, ∀ first, texts first = comma first ++ inner)
    (rest : CString) : Boundary (texts false ++ closing :: rest) ∧
      jsonSkipWs (texts false ++ closing :: rest) = texts false ++ closing :: rest ∧
      skipByte ',' (texts false ++ closing :: rest) = texts true ++ closing :: rest := by
  rcases isTexts with empty | ⟨inner, isInner⟩
  · rw [empty, empty]
    rcases isClosing with rfl | rfl
    all_goals exact ⟨Boundary.of_cons (by decide) rest, jsonSkipWs_cons (by decide) rest, rfl⟩
  · rw [isInner, isInner]
    exact ⟨Boundary.of_cons (by decide) _, jsonSkipWs_cons (by decide) _, skipByte_at ',' _⟩

theorem elementsText_or (elements : List Written) : (∀ first, elementsText first elements = []) ∨
    ∃ inner, ∀ first, elementsText first elements = comma first ++ inner := by
  cases elements with
  | nil => exact Or.inl fun _ => by rw [elementsText]
  | cons element rest =>
      exact Or.inr ⟨element.text ++ elementsText false rest, fun first => by
        rw [elementsText, List.append_assoc]⟩

theorem membersText_or (members : List (CString × Written)) :
    (∀ first, membersText first members = []) ∨
    ∃ inner, ∀ first, membersText first members = comma first ++ inner := by
  cases members with
  | nil => exact Or.inl fun _ => by rw [membersText]
  | cons member rest =>
      rcases member with ⟨key, value⟩
      exact Or.inr ⟨quoted key ++ ':'.toUInt8 :: value.text ++ membersText false rest, fun first => by
        simp only [membersText, List.append_assoc]⟩

theorem skip_elements (elements : List Written) (rest : CString) :
    jsonSkipWs (elementsText true elements ++ ']'.toUInt8 :: rest) =
      elementsText true elements ++ ']'.toUInt8 :: rest := by
  cases elements with
  | nil => exact jsonSkipWs_cons (by decide) rest
  | cons element others =>
      simp only [elementsText, comma, if_true, List.nil_append, List.append_assoc]
      exact skip_written element _

theorem elements_cons (element : Written) (others : List Written) (p : CString) :
    elementsText true (element :: others) ++ p = element.text ++ (elementsText false others ++ p) := by
  simp only [elementsText, comma, if_true, List.nil_append, List.append_assoc]

/-- The attempt at an array ends at its end with its integers, or with nothing. -/
theorem read_writtenIntegers (elements : List Written) (rest : CString) (values : List Int64) :
    ∃ result, Eventually (fun fuel => jsonParseIntegers fuel values
        (elementsText true elements ++ ']'.toUInt8 :: rest)) result ∧
      (result = none ∨ ∃ integers, result = some (values ++ integers, rest) ∧
        elementsValues elements = integerItems integers) := by
  induction elements generalizing values with
  | nil =>
      refine ⟨_, read_integersEnd values rest, Or.inr ⟨[], by rw [List.append_nil], ?_⟩⟩
      rw [elementsValues]
      rfl
  | cons element others ih =>
      have skipped := skip_elements (element :: others) rest
      rcases written_integer_or_not element with ⟨value, rfl⟩ | ⟨b, tail, isStart, starts, notInteger⟩
      · rcases printInteger_spec value with ⟨number, isNumber, isValue⟩
        have sameValue : Int64.ofInt number.value = value := by rw [isValue, Int64.ofInt_toInt]
        rcases after_element (Or.inl rfl) (elementsText_or others) rest with ⟨-, -, next⟩
        rcases ih (values ++ [value]) with ⟨result, later, either⟩
        have separator : ∃ b tail, elementsText false others ++ ']'.toUInt8 :: rest = b :: tail ∧
            (b = ','.toUInt8 ∨ b = ']'.toUInt8) := by
          cases others with
          | nil => exact ⟨_, _, rfl, Or.inr rfl⟩
          | cons other others => exact ⟨_, _, rfl, Or.inl rfl⟩
        rcases separator with ⟨b, tail, isRest, isNext⟩
        rw [← next, ← sameValue] at later
        refine ⟨result, @read_integer _ _ _ _ number [] _ _ ?_ isRest isNext later, ?_⟩
        · rw [skipped, elements_cons, isNumber]
          rfl
        · apply either.imp_right
          rintro ⟨integers, isResult, isValues⟩
          refine ⟨value :: integers, ?_, ?_⟩
          · rw [isResult, List.append_assoc]
            rfl
          · rw [elementsValues, isValues]
            rfl
      · rw [elements_cons, isStart, List.cons_append] at skipped ⊢
        exact ⟨none, read_notInteger values skipped starts notInteger.1 notInteger.2, Or.inl rfl⟩

section Reading

variable (atof : CString → UInt64)

mutual

theorem read_written (w : Written) {p rest : CString} (isText : p = w.text ++ rest)
    (boundary : Boundary rest) :
    ∃ value, Eventually (fun fuel => jsonParseValue atof fuel p) (value, rest) ∧
      Denotes value w.value := by
  have skipped : jsonSkipWs p = w.text ++ rest := by rw [isText, skip_written]
  cases w with
  | null => exact ⟨.null, read_scalar atof skipped (by decide), .null⟩
  | bool value =>
      cases value with
      | true => exact ⟨.bool true, read_scalar atof skipped (by decide), .bool true⟩
      | false => exact ⟨.bool false, read_scalar atof skipped (by decide), .bool false⟩
  | int value =>
      rcases printInteger_spec value with ⟨number, isNumber, isValue⟩
      rw [Written.text, ← isNumber] at skipped
      have read := read_number atof skipped boundary
      rw [isValue, Int64.ofInt_toInt] at read
      exact ⟨_, read, .int value⟩
  | string bytes =>
      exact ⟨_, read_string atof skipped (jsonParseStringRaw_quoted bytes rest), .string bytes⟩
  | array elements =>
      rw [Written.text, List.append_assoc, List.cons_append] at skipped
      cases elements with
      | nil => exact ⟨_, read_emptyArray atof [] skipped, .intArray []⟩
      | cons element others =>
          have inner := skip_elements (element :: others) rest
          rcases written_starts element with ⟨b, tail, isStart, starts⟩
          have isFirst : elementsText true (element :: others) ++ ']'.toUInt8 :: rest =
              b :: (tail ++ (elementsText false others ++ ']'.toUInt8 :: rest)) := by
            rw [elements_cons, isStart, List.cons_append]
          rcases read_writtenIntegers (element :: others) rest [] with
            ⟨integers, attempt, rfl | ⟨values, rfl, isValues⟩⟩
          · rcases read_writtenElements (element :: others) rest [] with ⟨values, read, denoted⟩
            rw [isFirst] at attempt read
            exact ⟨_, read_array atof skipped (inner.trans isFirst) starts attempt read,
              Denotes.all denoted⟩
          · rw [isFirst] at attempt
            refine ⟨_, read_array atof skipped (inner.trans isFirst) starts attempt
              (Eventually.now _), ?_⟩
            rw [Written.value, isValues]
            exact .intArray values
  | object members =>
      rw [Written.text, List.append_assoc, List.cons_append] at skipped
      rcases read_writtenMembers members rest Packed.create noMembers with ⟨m, f, read, packed, agrees⟩
      have skippedInner : jsonSkipWs (membersText true members ++ ('}'.toUInt8 :: rest)) =
          membersText true members ++ ('}'.toUInt8 :: rest) := by
        cases members with
        | nil => exact jsonSkipWs_cons (by decide) rest
        | cons member others => exact jsonSkipWs_cons (by decide) _
      rw [← skippedInner] at read
      exact ⟨.object m, read_object atof skipped read, agrees.object packed⟩

theorem read_writtenElements (elements : List Written) (rest : CString) (values : List JsonValue) :
    ∃ read, Eventually (fun fuel => jsonParseElements atof fuel values
        (elementsText true elements ++ ']'.toUInt8 :: rest)) (.array (values ++ read), rest) ∧
      List.Forall₂ Denotes read (elementsValues elements) := by
  cases elements with
  | nil =>
      refine ⟨[], ?_, .nil⟩
      rw [List.append_nil]
      exact read_elementsEnd atof values rest
  | cons element others =>
      rcases written_starts element with ⟨b, tail, isStart, starts⟩
      have skipped := skip_elements (element :: others) rest
      rcases after_element (Or.inl rfl) (elementsText_or others) rest with
        ⟨boundary, skippedRest, next⟩
      rcases read_written element (elements_cons element others _) boundary with
        ⟨value, read, denotes⟩
      rcases read_writtenElements others rest (values ++ [value]) with ⟨later, readLater, denoted⟩
      have isFirst : elementsText true (element :: others) ++ ']'.toUInt8 :: rest =
          b :: (tail ++ (elementsText false others ++ ']'.toUInt8 :: rest)) := by
        rw [elements_cons, isStart, List.cons_append]
      refine ⟨value :: later, read_element atof (skipped.trans isFirst) starts read ?_,
        .cons denotes denoted⟩
      rw [skippedRest, next, skip_elements]
      rw [List.append_assoc] at readLater
      exact readLater

theorem read_writtenMembers (members : List (CString × Written)) (rest : CString)
    {m : TinoxMap CString JsonValue} {f : CString → Option JsonValue} {done : List (Bytes × Value)}
    (packed : Packed m f) (agrees : Agrees f (lastValue done)) :
    ∃ m' f', Eventually (fun fuel => jsonParseMembers atof fuel m
        (membersText true members ++ '}'.toUInt8 :: rest)) (.object m', rest) ∧
      Packed m' f' ∧ Agrees f' (lastValue (done ++ membersValues members)) := by
  cases members with
  | nil =>
      refine ⟨m, f, ?_, packed, ?_⟩
      · rw [membersText]
        exact read_membersEnd atof m rest
      · rw [membersValues, List.append_nil]
        exact agrees
  | cons member others =>
      rcases member with ⟨key, value⟩
      rcases after_element (Or.inr rfl) (membersText_or others) rest with ⟨boundary, skippedRest, next⟩
      rcases read_written value rfl boundary with ⟨result, read, denotes⟩
      rcases packed.set key result with ⟨m', isSet, packed'⟩
      rcases read_writtenMembers others rest packed' (agrees.set denotes) with
        ⟨m'', f'', later, packed'', agrees''⟩
      have isStart : membersText true ((key, value) :: others) ++ '}'.toUInt8 :: rest =
          quoted key ++ ':'.toUInt8 :: (value.text ++ (membersText false others ++ '}'.toUInt8 :: rest)) := by
        simp only [membersText, comma, if_true, List.nil_append, List.append_assoc, List.cons_append]
      have skipped : jsonSkipWs (quoted key ++
          ':'.toUInt8 :: (value.text ++ (membersText false others ++ '}'.toUInt8 :: rest))) =
          quoted key ++ ':'.toUInt8 :: (value.text ++ (membersText false others ++ '}'.toUInt8 :: rest)) :=
        skip_written (.string key) _
      have colon := skip_colon [] (value.text ++ (membersText false others ++ '}'.toUInt8 :: rest))
      rw [← colon] at read
      refine ⟨m'', f'', ?_, packed'', ?_⟩
      · rw [isStart]
        apply read_member atof skipped (jsonParseStringRaw_quoted key _) read isSet
        rw [skippedRest, next]
        exact later
      · rw [membersValues]
        rw [List.append_assoc] at agrees''
        exact agrees''

end

theorem readsAs_written (w : Written) : ReadsAs atof w.text w.value := by
  rcases read_written atof w (List.append_nil w.text).symm nofun with ⟨value, ⟨bound, read⟩, denotes⟩
  exact ⟨value, bound, fun fuel enough => congrArg (Option.map Prod.fst) (read fuel enough), denotes⟩

end Reading

theorem Represents.lookup {m : TinoxMap CString JsonValue} {f : CString → Option JsonValue}
    (represents : Represents stringHash m f) (key : CString) : lookup stringHash m key = f key := by
  have searchable : Searchable stringHash m :=
    ⟨represents.isPower, represents.len, represents.wellFormed.reaches⟩
  cases isValue : f key with
  | some value =>
      rcases searchable.findKey_of_holds ((represents.holds key value).mpr isValue) with
        ⟨idx, found, isFound, isLive⟩
      have isSame := represents.wellFormed.value_eq ⟨idx, isLive⟩ ((represents.holds key value).mpr isValue)
      rw [Runtime.lookup, isFound, Option.bind_some, isLive, isSame]
      rfl
  | none =>
      rw [← Option.not_isSome_iff_eq_none, searchable.lookup_isSome_iff]
      rintro ⟨value, member⟩
      have isSome := (represents.holds key value).mp (mem_entries.mp member)
      rw [isValue] at isSome
      cases isSome

theorem Denotes.means {result : JsonValue} {value : Value} (denotes : Denotes result value) :
    Means result value := by
  induction denotes with
  | null => exact .null
  | bool value => exact .bool value
  | int value => exact .int value
  | string bytes => exact .string bytes
  | intArray values => exact .intArray values
  | array sameLength _ ih => exact .array sameLength ih
  | object f represents sameNames _ ih =>
      apply Means.object
      · intro key
        rw [represents.lookup]
        exact sameNames key
      · intro key value item isValue isItem
        rw [represents.lookup] at isValue
        exact ih key value item isValue isItem

/-- What is written of a value is read as a value that means the same. -/
theorem jsonParse_jsonStringify (atof : CString → UInt64) (printFloat : UInt64 → CString)
    {v : JsonValue} (built : Built NulFree v) :
    ∃ text result value, Eventually (fun fuel => jsonStringify printFloat fuel v) text ∧
      Eventually (fun fuel => jsonParse atof fuel (some text)) result ∧
      Means v value ∧ Means result value := by
  rcases built.writes printFloat with ⟨w, writes⟩
  rcases readsAs_written atof w with ⟨result, bound, reads, denotes⟩
  exact ⟨w.text, result, w.value, writes.text [], ⟨bound, reads⟩, writes.means, denotes.means⟩

theorem jsonParse_jsonStringify_tab : ∃ text result value,
    Eventually (fun fuel => jsonStringify (fun _ => []) fuel tabArray) text ∧
    Eventually (fun fuel => jsonParse (fun _ => 0) fuel (some text)) result ∧
    Means tabArray value ∧ Means result value := by
  have nulFree : NulFree [97, 9] := by
    rw [NulFree]
    decide
  exact jsonParse_jsonStringify (fun _ => 0) (fun _ => []) (built_tabArray nulFree)

end Tinox.Runtime
