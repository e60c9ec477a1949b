import Tinox.Runtime.JsonReads
import Tinox.Runtime.JsonWriter
import Tinox.Runtime.MapLookups

/-!
# What the JSON writers write

The texts of values are those of small trees, whatever calls the tables of their objects
have come from.
-/

namespace Tinox.Runtime

open Probing JsonText

/-- The tables that calls make of a new one. -/
inductive Made : TinoxMap CString JsonValue → Prop where
  | create : Made tinoxMapCreate
  | createObject : Made jsonObjMapCreate
  | set {m m' : TinoxMap CString JsonValue} {fuel : Nat} {key : CString} {value : JsonValue} :
      Made m → tinoxMapSet stringHash fuel m key value = some m' → Made m'
  | remove {m m' : TinoxMap CString JsonValue} {fuel : Nat} {key : CString} :
      Made m → tinoxMapRemove stringHash fuel m key = some m' → Made m'

/-- A value without floats, all of whose strings and keys are of a kind. -/
inductive Built (kind : CString → Prop) : JsonValue → Prop where
  | null : Built kind .null
  | bool (value : Bool) : Built kind (.bool value)
  | int (value : Int64) : Built kind (.int value)
  | string {bytes : CString} : kind bytes → Built kind (.string bytes)
  | intArray (values : List Int64) : Built kind (.intArray values)
  | array {values : List JsonValue} : (∀ value ∈ values, Built kind value) →
      Built kind (.array values)
  | object {m : TinoxMap CString JsonValue} : Made m →
      (∀ key value, lookup stringHash m key = some value → kind key) →
      (∀ key value, lookup stringHash m key = some value → Built kind value) →
      Built kind (.object m)

/-- What a value stands for; an object is the function from its keys to their values. -/
inductive Means : JsonValue → Value → Prop where
  | null : Means .null .null
  | bool (value : Bool) : Means (.bool value) (.bool value)
  | int (value : Int64) : Means (.int value) (.int value.toInt)
  | string (bytes : CString) : Means (.string bytes) (.string bytes)
  | intArray (values : List Int64) : Means (.intArray values) (.array (integerItems values))
  | array {values : List JsonValue} {items : List Value} : values.length = items.length →
      (∀ (i : Nat) value item, values[i]? = some value → items[i]? = some item →
        Means value item) →
      Means (.array values) (.array items)
  | object {m : TinoxMap CString JsonValue} {members : Bytes → Option Value} :
      (∀ key, (lookup stringHash m key).isSome = (members key).isSome) →
      (∀ key value item, lookup stringHash m key = some value → members key = some item →
        Means value item) →
      Means (.object m) (.object members)

/-- The tree of what is written. -/
inductive Written where
  | null
  | bool (value : Bool)
  | int (value : Int64)
  | string (bytes : CString)
  | array (elements : List Written)
  | object (members : List (CString × Written))

/-- A string with its quotes. -/
def quoted (bytes : CString) : CString :=
  '"'.toUInt8 :: bytes.flatMap escaped ++ ['"'.toUInt8]

/-- What comes before an element. -/
def comma (first : Bool) : CString :=
  if first then [] else [','.toUInt8]

mutual

def Written.text : Written → CString
  | .null => literal "null"
  | .bool value => literal (if value then "true" else "false")
  | .int value => printInteger value
  | .string bytes => quoted bytes
  | .array elements => '['.toUInt8 :: elementsText true elements ++ [']'.toUInt8]
  | .object members => '{'.toUInt8 :: membersText true members ++ ['}'.toUInt8]

def elementsText (first : Bool) : List Written → CString
  | [] => []
  | element :: rest => comma first ++ element.text ++ elementsText false rest

def membersText (first : Bool) : List (CString × Written) → CString
  | [] => []
  | (key, value) :: rest =>
      comma first ++ quoted key ++ ':'.toUInt8 :: value.text ++ membersText false rest

end

mutual

def Written.value : Written → Value
  | .null => .null
  | .bool value => .bool value
  | .int value => .int value.toInt
  | .string bytes => .string bytes
  | .array elements => .array (elementsValues elements)
  | .object members => .object (lastValue (membersValues members))

def elementsValues : List Written → List Value
  | [] => []
  | element :: rest => element.value :: elementsValues rest

def membersValues : List (CString × Written) → List (Bytes × Value)
  | [] => []
  | (key, value) :: rest => (key, value.value) :: membersValues rest

end

mutual

/-- All strings and keys are of a kind. -/
def Written.All (kind : CString → Prop) : Written → Prop
  | .null => True
  | .bool _ => True
  | .int _ => True
  | .string bytes => kind bytes
  | .array elements => ElementsAll kind elements
  | .object members => MembersAll kind members

def ElementsAll (kind : CString → Prop) : List Written → Prop
  | [] => True
  | element :: rest => element.All kind ∧ ElementsAll kind rest

def MembersAll (kind : CString → Prop) : List (CString × Written) → Prop
  | [] => True
  | (key, value) :: rest => kind key ∧ value.All kind ∧ MembersAll kind rest

end

/-- The text of a natural number. -/
def natBytes (n : Nat) : CString :=
  (Nat.toDigits 10 n).map Char.toUInt8

theorem natBytes_small : ∀ n : Fin 10, natBytes n = ['0'.toUInt8 + UInt8.ofNat n] := by
  decide

theorem natBytes_large {n : Nat} (large : 10 ≤ n) :
    natBytes n = natBytes (n / 10) ++ natBytes (n % 10) := by
  have isSmall : n % 10 < 10 := Nat.mod_lt n (by decide)
  rw [natBytes, Nat.toDigits_of_base_le (by decide) large, List.map_append,
    ← Nat.toDigits_of_lt_base isSmall]
  rfl

theorem digitPair_eq : ∀ n : Fin 100, digitPair n = natBytes (n / 10) ++ natBytes (n % 10) := by
  simp only [digitPair, digitPairs, literal, String.toList_append]
  repeat rw [String.toList_ofList]
  decide

theorem natBytes_pair {n : Nat} (large : 100 ≤ n) :
    natBytes n = natBytes (n / 100) ++ digitPair (n % 100) := by
  rw [digitPair_eq ⟨n % 100, Nat.mod_lt n (by decide)⟩, natBytes_large (by omega),
    natBytes_large (n := n / 10) (by omega), List.append_assoc, Nat.div_div_eq_div_mul]
  congr 2
  · congr 1
    show n / 10 % 10 = n % 100 / 10
    omega
  · congr 1
    show n % 10 = n % 100 % 10
    omega

theorem fastDigits_spec (uval : UInt64) : fastDigits uval = natBytes uval.toNat := by
  fun_induction fastDigits uval with
  | case1 uval large ih =>
      have large' : 100 ≤ uval.toNat := UInt64.le_iff_toNat_le.mp large
      rw [ih, natBytes_pair large', UInt64.toNat_div, UInt64.toNat_mod]
      rfl
  | case2 uval small large =>
      have large' : 10 ≤ uval.toNat := UInt64.le_iff_toNat_le.mp large
      have small' : uval.toNat < 100 := UInt64.lt_iff_toNat_lt.mp (UInt64.not_le.mp small)
      rw [digitPair_eq ⟨uval.toNat, small'⟩, natBytes_large large']
  | case3 uval _ small =>
      have small' : uval.toNat < 10 := UInt64.lt_iff_toNat_lt.mp (UInt64.not_le.mp small)
      rw [natBytes_small ⟨uval.toNat, small'⟩]
      rfl

theorem toUInt64_cases (val : Int64) :
    (0 ≤ val.toInt ∧ val.toUInt64.toNat = val.toInt.natAbs) ∨
      (val.toInt < 0 ∧ (-val.toUInt64).toNat = val.toInt.natAbs ∧ 2 ^ 63 ≤ val.toUInt64.toNat) := by
  have isBits : val.toUInt64.toNat = val.toBitVec.toNat := rfl
  have below := val.toBitVec.isLt
  have isInt : val.toInt = val.toBitVec.toInt := rfl
  rw [BitVec.toInt_eq_toNat_cond] at isInt
  split at isInt
  · exact Or.inl ⟨by omega, by omega⟩
  · refine Or.inr ⟨by omega, ?_, by omega⟩
    rw [UInt64.toNat_neg, isBits, UInt64.size]
    omega

theorem fastI64Write_eq (val : Int64) : fastI64Write val = printInteger val := by
  have isNegative : val < 0 ↔ val.toInt < 0 := Int64.lt_iff_toInt_lt
  rw [fastI64Write, printInteger]
  rcases toUInt64_cases val with ⟨notNegative, isNat⟩ | ⟨negative, isNat, large⟩
  · have notBelow : ¬ val.toInt < 0 := Int.not_lt.mpr notNegative
    have sign : ¬ val < 0 := fun isLess => notBelow (isNegative.mp isLess)
    rw [if_neg sign, if_neg notBelow, List.nil_append, ← isNat]
    split
    · next small =>
        have small' : val.toUInt64.toNat < 10 := UInt64.lt_iff_toNat_lt.mp small
        exact (natBytes_small ⟨_, small'⟩).symm
    · next large =>
        have large' : 10 ≤ val.toUInt64.toNat :=
          Nat.le_of_not_lt fun small => large (UInt64.lt_iff_toNat_lt.mpr small)
        split
        · next small =>
            have small' : val.toUInt64.toNat < 100 := UInt64.lt_iff_toNat_lt.mp small
            exact (digitPair_eq ⟨_, small'⟩).trans (natBytes_large large').symm
        · exact fastDigits_spec val.toUInt64
  · have notSmall : ∀ bound : UInt64, bound.toNat ≤ 2 ^ 63 → ¬ val.toUInt64 < bound :=
      fun bound small isLess => absurd (UInt64.lt_iff_toNat_lt.mp isLess) (by omega)
    rw [if_neg (notSmall 10 (by decide)), if_neg (notSmall 100 (by decide)),
      if_pos (isNegative.mpr negative), if_pos negative, fastDigits_spec, isNat]
    rfl

theorem digits_of_nat (n : Nat) : ∃ (first : Fin 10) (rest : List (Fin 10)),
    digitBytes (first :: rest) = natBytes n ∧ decimal (first :: rest) = n ∧
      (first = 0 → rest = []) := by
  induction n using Nat.strongRecOn with
  | _ n ih =>
      by_cases small : n < 10
      · refine ⟨⟨n, small⟩, [], ?_, ?_, fun _ => rfl⟩
        · exact (natBytes_small ⟨n, small⟩).symm
        · exact Nat.zero_add n
      · rcases ih (n / 10) (by omega) with ⟨first, rest, isText, isValue, noLeadingZero⟩
        have below : n % 10 < 10 := Nat.mod_lt n (by decide)
        refine ⟨first, rest ++ [⟨n % 10, below⟩], ?_, ?_, ?_⟩
        · rw [natBytes_large (Nat.le_of_not_lt small), ← isText, natBytes_small ⟨_, below⟩]
          simp only [digitBytes, List.map_cons, List.map_append, List.map_nil, List.cons_append]
        · rw [decimal] at isValue ⊢
          rw [← List.cons_append, List.foldl_append, isValue]
          exact Nat.div_add_mod' n 10
        · intro isZero
          rw [noLeadingZero isZero, isZero] at isValue
          have isNone : n / 10 = 0 := isValue.symm
          omega

theorem printInteger_spec (value : Int64) :
    ∃ number : Integer, number.bytes = printInteger value ∧ number.value = value.toInt := by
  rcases digits_of_nat value.toInt.natAbs with ⟨first, rest, isText, isValue, noLeadingZero⟩
  have low := Int64.le_toInt value
  have high := Int64.toInt_lt value
  by_cases negative : value.toInt < 0
  · refine ⟨⟨true, first, rest, noLeadingZero, ?_⟩, ?_, ?_⟩
    · rw [if_pos rfl, isValue]
      omega
    · rw [integer_bytes, if_pos rfl, isText, printInteger, if_pos negative]
      rfl
    · rw [Integer.value, if_pos rfl, isValue]
      omega
  · refine ⟨⟨false, first, rest, noLeadingZero, ?_⟩, ?_, ?_⟩
    · rw [if_neg Bool.false_ne_true, isValue]
      omega
    · rw [integer_bytes, if_neg Bool.false_ne_true, isText, printInteger, if_neg negative]
      rfl
    · rw [Integer.value, if_neg Bool.false_ne_true, isValue]
      omega

/-- No byte ends a C string. -/
def NulFree (bytes : CString) : Prop :=
  0 ∉ bytes

theorem nulFree_nil : NulFree [] :=
  List.not_mem_nil

/-- The bytes of characters other than NUL. -/
def Utf8 (bytes : CString) : Prop :=
  ∃ chars : List Char, Char.ofNat 0 ∉ chars ∧ bytes = chars.flatMap String.utf8EncodeChar

/-- A byte that the writers escape or that may stand in a string of JSON. -/
def Covered (b : UInt8) : Prop :=
  0x20 ≤ b ∨ b = '\t'.toUInt8 ∨ b = '\n'.toUInt8 ∨ b = '\r'.toUInt8

/-- No control character other than tabs and ends of lines. -/
def CoveredString (bytes : CString) : Prop :=
  ∀ b ∈ bytes, Covered b

theorem foldl_escaped (bytes out : CString) :
    bytes.foldl (fun out p => out ++ escaped p) out = out ++ bytes.flatMap escaped := by
  induction bytes generalizing out with
  | nil => exact (List.append_nil out).symm
  | cons b bytes ih => rw [List.foldl_cons, ih, List.flatMap_cons, List.append_assoc]

theorem jsonAppendStr_eq (out s : CString) : jsonAppendStr out s = out ++ quoted s := by
  have looped := foldl_escaped s (out ++ literal "\"")
  rw [jsonAppendStr, jsonAppend, jsonAppend]
  simp only [jsonAppend]
  rw [looped, List.append_assoc, List.append_assoc]
  rfl

theorem tinoxJsonEncodeString_eq (s : CString) : tinoxJsonEncodeString (some s) = quoted s := by
  rw [tinoxJsonEncodeString, Option.getD_some, foldl_escaped]
  rfl

theorem jsonBuilderAddString_eq (b : JsonBuilder) (key s : CString) :
    (jsonBuilderAddString b key (some s)).buf = (jbKey b key).buf ++ quoted s := by
  rw [jsonBuilderAddString, Option.getD_some, foldl_escaped, List.append_assoc, List.append_assoc]
  rfl

theorem copyString_escaped (b : UInt8) (p : CString) :
    copyString (escaped b ++ p) = (copyString p).map (b :: ·) id := by
  rw [escaped]
  split
  · next same => rw [same]; exact copyString_escape _ p
  · next notQuote =>
      split
      · next same => rw [same]; exact copyString_escape _ p
      · next notBackslash =>
          split
          · next same => rw [same]; exact copyString_escape _ p
          · split
            · next same => rw [same]; exact copyString_escape _ p
            · split
              · next same => rw [same]; exact copyString_escape _ p
              · exact copyString_cons ⟨notQuote, notBackslash⟩ p

theorem jsonParseStringRaw_quoted (bytes p : CString) :
    jsonParseStringRaw (quoted bytes ++ p) = (bytes, p) := by
  rw [jsonParseStringRaw, quoted, List.cons_append, List.cons_append, List.tail_cons,
    List.append_assoc]
  induction bytes with
  | nil => exact copyString_quote p
  | cons b bytes ih => rw [List.flatMap_cons, List.append_assoc, copyString_escaped, ih]; rfl

theorem escaped_clean {b : UInt8} (clean : Clean b) (large : 0x20 ≤ b) : escaped b = [b] := by
  have apart : ∀ c : UInt8, ¬ 0x20 ≤ c → b ≠ c := by
    rintro c small rfl
    exact small large
  rw [escaped, if_neg clean.1, if_neg clean.2, if_neg (apart '\n'.toUInt8 (by decide)),
    if_neg (apart '\r'.toUInt8 (by decide)), if_neg (apart '\t'.toUInt8 (by decide))]

theorem escaped_notCovered {b : UInt8} (notCovered : ¬ Covered b) : escaped b = [b] := by
  have apart : ∀ c : UInt8, Covered c → b ≠ c := by
    rintro c covered rfl
    exact notCovered covered
  have quote : Covered '"'.toUInt8 := Or.inl (by decide)
  have backslash : Covered '\\'.toUInt8 := Or.inl (by decide)
  rw [escaped, if_neg (apart _ quote), if_neg (apart _ backslash),
    if_neg (apart _ (Or.inr (Or.inr (Or.inl rfl)))), if_neg (apart _ (Or.inr (Or.inr (Or.inr rfl)))),
    if_neg (apart _ (Or.inr (Or.inl rfl)))]

theorem encode_ascii {char : Char} (ascii : char.toNat < 0x80) :
    String.utf8EncodeChar char = [char.toUInt8] := by
  rw [String.utf8EncodeChar, if_pos (show char.val.toNat ≤ 0x7f from Nat.le_of_lt_succ ascii)]
  rfl

theorem item_of_char {char : Char} (covered : ∀ b ∈ String.utf8EncodeChar char, Covered b) :
    ∃ item : Item, item.bytes = (String.utf8EncodeChar char).flatMap escaped ∧ item.char = char := by
  by_cases isEscape : ∃ letter : Escape, letter ∈ [.quote, .backslash, .newline, .carriageReturn, .tab] ∧
      char = letter.char
  · rcases isEscape with ⟨letter, member, rfl⟩
    refine ⟨.escape letter, ?_, rfl⟩
    have isWritten : ∀ letter : Escape,
        letter ∈ [.quote, .backslash, .newline, .carriageReturn, .tab] →
        (Item.escape letter).bytes = (String.utf8EncodeChar letter.char).flatMap escaped := by
      intro letter
      cases letter <;> decide
    exact isWritten letter member
  · have apart : ∀ letter : Escape, letter ∈ [.quote, .backslash, .newline, .carriageReturn, .tab] →
        char ≠ letter.char := fun letter member same => isEscape ⟨letter, member, same⟩
    have large : 0x20 ≤ char.toNat := by
      by_contra small
      have isAscii : String.utf8EncodeChar char = [char.toUInt8] := encode_ascii (by omega)
      have isCovered := covered char.toUInt8 (by rw [isAscii]; exact List.mem_singleton_self _)
      have sameNat : char.toUInt8.toNat = char.toNat := by
        change char.toNat % 256 = char.toNat
        omega
      have isLetter : ∀ letter : Escape, char.toUInt8 = letter.char.toUInt8 → letter.char.toNat < 256 →
          char = letter.char := by
        intro letter same below
        apply Char.toNat_inj.mp
        rw [← sameNat, same]
        exact Nat.mod_eq_of_lt below
      rcases isCovered with high | same | same | same
      · exact small (sameNat ▸ UInt8.le_iff_toNat_le.mp high)
      · exact apart .tab (by decide) (isLetter .tab same (by decide))
      · exact apart .newline (by decide) (isLetter .newline same (by decide))
      · exact apart .carriageReturn (by decide) (isLetter .carriageReturn same (by decide))
    have isPlain : 0x20 ≤ char.toNat ∧ char ≠ '"' ∧ char ≠ '\\' :=
      ⟨large, apart .quote (by decide), apart .backslash (by decide)⟩
    refine ⟨.plain char isPlain, ?_, rfl⟩
    have clean : ∀ b ∈ String.utf8EncodeChar char, escaped b = [b] := by
      intro b member
      apply escaped_clean (plain_ne isPlain member)
      rw [UInt8.le_iff_toNat_le]
      rcases mem_utf8EncodeChar member with same | high
      · exact same ▸ large
      · exact Nat.le_trans (by decide) high
    rw [Item.bytes, List.flatMap_congr clean]
    exact (List.flatMap_singleton' _).symm

theorem quoted_isString {bytes : CString} (utf8Bytes : Utf8 bytes) (covered : CoveredString bytes) :
    ∃ items, stringBytes items = quoted bytes ∧ utf8 items = bytes := by
  rcases utf8Bytes with ⟨chars, -, rfl⟩
  suffices written : ∃ items, stringBody items =
      (chars.flatMap String.utf8EncodeChar).flatMap escaped ∧
      utf8 items = chars.flatMap String.utf8EncodeChar by
    rcases written with ⟨items, isBody, denotes⟩
    exact ⟨items, by rw [stringBytes, isBody, quoted], denotes⟩
  induction chars with
  | nil => exact ⟨[], rfl, rfl⟩
  | cons char chars ih =>
      rw [List.flatMap_cons] at covered ⊢
      rcases item_of_char fun b member => covered b (List.mem_append_left _ member) with
        ⟨item, isBytes, isChar⟩
      rcases ih fun b member => covered b (List.mem_append_right _ member) with
        ⟨items, isBody, denotes⟩
      refine ⟨item :: items, ?_, ?_⟩
      · rw [stringBody, List.flatMap_cons, List.flatMap_append, isBytes, ← isBody]
        rfl
      · rw [utf8, List.flatMap_cons, isChar, ← denotes]
        rfl

/-- What is written without a control character comes from a string without one. -/
theorem covered_of_quoted {bytes : CString} (covered : ∀ b ∈ quoted bytes, Covered b) :
    CoveredString bytes := by
  intro b member
  by_contra notCovered
  apply notCovered
  apply covered
  apply List.mem_cons_of_mem
  apply List.mem_append_left
  rw [List.mem_flatMap]
  exact ⟨b, member, by rw [escaped_notCovered notCovered]; exact List.mem_singleton_self b⟩

theorem Made.searchable {m : TinoxMap CString JsonValue} (made : Made m) :
    Searchable stringHash m := by
  induction made with
  | create => exact Searchable.replicate_empty ⟨4, rfl⟩
  | createObject => exact Searchable.replicate_empty ⟨2, rfl⟩
  | set _ done ih => exact ih.set done
  | remove _ done ih => exact ih.remove done

theorem jsonMapGet_eventually {m : TinoxMap CString JsonValue} {key : CString} {value : JsonValue}
    (isValue : lookup stringHash m key = some value) :
    Eventually (fun fuel => jsonMapGet fuel m key) value := by
  rcases Option.bind_eq_some_iff.mp isValue with ⟨idx, found, atIdx⟩
  rcases Option.map_eq_some_iff.mp atIdx with ⟨entry, isEntry, rfl⟩
  refine ⟨m.cap, fun fuel enough => ?_⟩
  change jsonMapGet fuel m key = some entry.2
  rw [jsonMapGet, findKey_mono enough found, Option.map_some,
    Slot.content?_eq_some_iff.mp isEntry]

theorem stringifyIntegers_eq (first : Bool) (values : List Int64) (out : CString) :
    stringifyIntegers first values out = out ++ elementsText first (values.map .int) := by
  induction values generalizing first out with
  | nil => exact (List.append_nil out).symm
  | cons value values ih =>
      rw [stringifyIntegers, ih, List.map_cons, elementsText, Written.text, fastI64Write_eq]
      cases first
      all_goals simp only [comma, jsonAppend, literal, if_true, Bool.false_eq_true, if_false,
        List.append_assoc, List.nil_append]
      rfl

theorem elementsValues_integers (values : List Int64) :
    elementsValues (values.map .int) = integerItems values := by
  induction values with
  | nil => rfl
  | cons value values ih =>
      rw [List.map_cons, elementsValues, ih]
      rfl

theorem elementsAll_integers (kind : CString → Prop) (values : List Int64) :
    ElementsAll kind (values.map .int) := by
  induction values with
  | nil => trivial
  | cons value values ih => exact ⟨trivial, ih⟩

theorem Eventually.andThen {α β : Type} {run : Nat → Option α} {result : α} {last : β}
    (first : Eventually run result) (next : α → Nat → Option β)
    (second : Eventually (next result) last) :
    Eventually (fun fuel => (run fuel).bind fun found => next found fuel) last := by
  rcases first with ⟨firstBound, first⟩
  rcases second with ⟨secondBound, second⟩
  refine ⟨max firstBound secondBound, fun fuel enough => ?_⟩
  simp only [first fuel (Nat.le_trans (Nat.le_max_left _ _) enough), Option.bind_some]
  exact second fuel (Nat.le_trans (Nat.le_max_right _ _) enough)

theorem before_element (first : Bool) (out : CString) :
    (if first then out else jsonAppend out (literal ",")) = out ++ comma first := by
  cases first with
  | false => rfl
  | true => exact (List.append_nil out).symm

theorem mem_of_lastValue {entries : List (Bytes × Value)} {name : Bytes} {value : Value}
    (isValue : lastValue entries name = some value) : (name, value) ∈ entries := by
  rcases Option.map_eq_some_iff.mp isValue with ⟨entry, found, rfl⟩
  have passes := List.find?_some found
  have sameName : entry.1 = name := of_decide_eq_true passes
  rw [← sameName]
  exact List.mem_reverse.mp (List.mem_of_find?_eq_some found)

section Writing

variable (printFloat : UInt64 → CString)

/-- A value is written as a tree that has its meaning and its strings. -/
structure Writes (v : JsonValue) (w : Written) : Prop where
  text : ∀ out, Eventually (fun fuel => jsonStringifyValue printFloat fuel v out) (out ++ w.text)
  means : Means v w.value
  all : ∀ kind, w.All kind ↔ Built kind v

theorem writes_elements {values : List JsonValue}
    (each : ∀ value ∈ values, ∃ w, Writes printFloat value w) :
    ∃ ws, (∀ first out, Eventually (fun fuel => stringifyElements printFloat fuel first values out)
        (out ++ elementsText first ws)) ∧
      List.Forall₂ Means values (elementsValues ws) ∧
      ∀ kind, ElementsAll kind ws ↔ ∀ value ∈ values, Built kind value := by
  induction values with
  | nil =>
      refine ⟨[], fun first out => ?_, .nil, fun kind => ?_⟩
      · rw [elementsText, List.append_nil]
        exact Eventually.step (fun fuel => by rw [stringifyElements]) (Eventually.now out)
      · exact ⟨fun _ _ member => (List.not_mem_nil member).elim, fun _ => trivial⟩
  | cons value values ih =>
      rcases each value List.mem_cons_self with ⟨w, writes⟩
      rcases ih fun other member => each other (List.mem_cons_of_mem value member) with
        ⟨ws, later, means, all⟩
      refine ⟨w :: ws, fun first out => ?_, .cons writes.means means, fun kind => ?_⟩
      · have both := (writes.text (out ++ comma first)).andThen
          (fun out fuel => stringifyElements printFloat fuel false values out) (later false _)
        rw [elementsText, List.append_assoc, ← List.append_assoc out, ← List.append_assoc]
        refine Eventually.step (fun fuel => ?_) both
        rw [stringifyElements, before_element]
        cases jsonStringifyValue printFloat fuel value (out ++ comma first) <;> rfl
      · rw [ElementsAll, writes.all, all, List.forall_mem_cons]

theorem writes_members {m : TinoxMap CString JsonValue} (keys : List CString)
    (each : ∀ key ∈ keys, ∃ value w, lookup stringHash m key = some value ∧
      Writes printFloat value w) :
    ∃ ws, (∀ first out, Eventually
        (fun fuel => stringifyMembers printFloat fuel first m (keys.map some) out)
        (out ++ membersText first ws)) ∧
      (membersValues ws).map Prod.fst = keys ∧
      (∀ key item, (key, item) ∈ membersValues ws → ∃ value, lookup stringHash m key = some value ∧
        Means value item) ∧
      ∀ kind, MembersAll kind ws ↔ ∀ key ∈ keys, kind key ∧
        ∀ value, lookup stringHash m key = some value → Built kind value := by
  induction keys with
  | nil =>
      refine ⟨[], fun first out => ?_, rfl, ?_, fun kind => ?_⟩
      · rw [membersText, List.append_nil]
        exact Eventually.step (fun fuel => by rw [List.map_nil, stringifyMembers]) (Eventually.now out)
      · intro key item member
        cases member
      · exact ⟨fun _ _ member => (List.not_mem_nil member).elim, fun _ => trivial⟩
  | cons key keys ih =>
      rcases each key List.mem_cons_self with ⟨value, w, isValue, writes⟩
      rcases ih fun other member => each other (List.mem_cons_of_mem key member) with
        ⟨ws, later, names, means, all⟩
      refine ⟨(key, w) :: ws, fun first out => ?_, ?_, ?_, fun kind => ?_⟩
      · have written := (writes.text (out ++ comma first ++ quoted key ++ literal ":")).andThen
          (fun out fuel => stringifyMembers printFloat fuel false m (keys.map some) out)
          (later false _)
        have both := (jsonMapGet_eventually isValue).andThen
          (fun v fuel => (jsonStringifyValue printFloat fuel v
            (out ++ comma first ++ quoted key ++ literal ":")).bind fun out =>
              stringifyMembers printFloat fuel false m (keys.map some) out) written
        have sameText : out ++ membersText first ((key, w) :: ws) =
            out ++ comma first ++ quoted key ++ literal ":" ++ w.text ++ membersText false ws := by
          simp only [membersText, List.append_assoc]
          rfl
        rw [sameText]
        refine Eventually.step (fun fuel => ?_) both
        rw [List.map_cons, stringifyMembers, jsonAppendStr_eq, before_element, jsonAppend]
        cases jsonMapGet fuel m key with
        | none => rfl
        | some v =>
            simp only [Option.bind_some]
            cases jsonStringifyValue printFloat fuel v
              (out ++ comma first ++ quoted key ++ literal ":") <;> rfl
      · rw [membersValues, List.map_cons, names]
      · intro other item member
        rw [membersValues, List.mem_cons, Prod.mk.injEq] at member
        rcases member with ⟨rfl, rfl⟩ | member
        · exact ⟨value, isValue, writes.means⟩
        · exact means other item member
      · rw [MembersAll, writes.all, all, List.forall_mem_cons, and_assoc]
        apply and_congr_right
        intro _
        apply and_congr_left
        intro _
        constructor
        · intro built found isFound
          rw [isValue] at isFound
          injection isFound with same
          exact same ▸ built
        · intro built
          exact built value isValue

theorem Built.writes {kind : CString → Prop} {v : JsonValue} (built : Built kind v) :
    ∃ w, Writes printFloat v w := by
  induction built with
  | null =>
      exact ⟨.null, fun out => Eventually.step (fun fuel => rfl) (Eventually.now _), .null,
        fun kind => ⟨fun _ => .null, fun _ => trivial⟩⟩
  | bool value =>
      exact ⟨.bool value, fun out => Eventually.step (fun fuel => rfl) (Eventually.now _), .bool value,
        fun kind => ⟨fun _ => .bool value, fun _ => trivial⟩⟩
  | int value =>
      exact ⟨.int value, fun out => Eventually.step (fun fuel => rfl) (Eventually.now _), .int value,
        fun kind => ⟨fun _ => .int value, fun _ => trivial⟩⟩
  | @string bytes isKind =>
      refine ⟨.string bytes, fun out => ?_, .string bytes, fun kind => ?_⟩
      · exact Eventually.step (fun fuel => congrArg some (jsonAppendStr_eq out bytes)) (Eventually.now _)
      · constructor
        · exact .string
        · intro built
          cases built with
          | string isKind => exact isKind
  | intArray values =>
      refine ⟨.array (values.map .int), fun out => ?_, ?_, fun kind => ?_⟩
      · refine Eventually.step (fun fuel => ?_) (Eventually.now _)
        rw [jsonStringifyValue, stringifyIntegers_eq, Written.text, jsonAppend, jsonAppend,
          List.append_assoc, List.append_assoc]
        rfl
      · rw [Written.value, elementsValues_integers]
        exact .intArray values
      · exact ⟨fun _ => .intArray values, fun _ => elementsAll_integers kind values⟩
  | @array values _ ih =>
      rcases writes_elements printFloat ih with ⟨ws, text, means, all⟩
      refine ⟨.array ws, fun out => ?_, ?_, fun kind => ?_⟩
      · have both := (text true (jsonAppend out (literal "["))).andThen
          (fun out _ => some (jsonAppend out (literal "]"))) (Eventually.now _)
        have sameText : out ++ (Written.array ws).text =
            jsonAppend (jsonAppend out (literal "[") ++ elementsText true ws) (literal "]") := by
          rw [Written.text, jsonAppend, jsonAppend, List.append_assoc, List.append_assoc]
          rfl
        rw [sameText]
        exact Eventually.step (fun fuel => Option.map_eq_bind) both
      · rcases List.forall₂_iff_get.mp means with ⟨sameLength, each⟩
        apply Means.array sameLength
        intro i value item isValue isItem
        rcases List.getElem?_eq_some_iff.mp isValue with ⟨inside, rfl⟩
        rcases List.getElem?_eq_some_iff.mp isItem with ⟨itemInside, rfl⟩
        exact each i inside itemInside
      · rw [Written.All, all]
        constructor
        · exact .array
        · intro built
          cases built with
          | array each => exact each
  | @object m made _ _ ih =>
      have searchable := made.searchable
      have each : ∀ key ∈ (entries m.entries).map Prod.fst,
          ∃ value w, lookup stringHash m key = some value ∧ Writes printFloat value w := by
        intro key member
        rcases List.mem_map.mp member with ⟨⟨other, old⟩, isEntry, rfl⟩
        rcases Option.isSome_iff_exists.mp (searchable.lookup_isSome_iff.mpr ⟨old, isEntry⟩) with
          ⟨value, isValue⟩
        rcases ih other value isValue with ⟨w, writes⟩
        exact ⟨value, w, isValue, writes⟩
      have isKey : ∀ key value, lookup stringHash m key = some value →
          key ∈ (entries m.entries).map Prod.fst := by
        intro key value isValue
        have isSome : (lookup stringHash m key).isSome = true := by rw [isValue]; rfl
        rcases searchable.lookup_isSome_iff.mp isSome with ⟨old, isEntry⟩
        exact List.mem_map_of_mem isEntry
      rcases writes_members printFloat _ each with ⟨ws, text, names, means, all⟩
      refine ⟨.object ws, fun out => ?_, ?_, fun kind => ?_⟩
      · have both := (text true (jsonAppend out (literal "\x7b"))).andThen
          (fun out _ => some (jsonAppend out (literal "\x7d"))) (Eventually.now _)
        have sameText : out ++ (Written.object ws).text =
            jsonAppend (jsonAppend out (literal "\x7b") ++ membersText true ws) (literal "\x7d") := by
          rw [Written.text, jsonAppend, jsonAppend, List.append_assoc, List.append_assoc]
          rfl
        rw [sameText]
        refine Eventually.step (fun fuel => ?_) both
        rw [jsonStringifyValue, searchable.keys, Option.map_eq_bind, List.map_map]
        rfl
      · apply Means.object
        · intro key
          apply Bool.eq_iff_iff.mpr
          rw [lastValue_isSome, names]
          constructor
          · intro isSome
            rcases Option.isSome_iff_exists.mp isSome with ⟨value, isValue⟩
            exact isKey key value isValue
          · intro member
            rcases each key member with ⟨value, -, isValue, -⟩
            rw [isValue]
            rfl
        · intro key value item isValue isItem
          rcases means key item (mem_of_lastValue isItem) with ⟨found, isFound, denotes⟩
          rw [isValue] at isFound
          injection isFound with same
          exact same ▸ denotes
      · rw [Written.All, all]
        constructor
        · intro each
          apply Built.object made
          · exact fun key value isValue => (each key (isKey key value isValue)).1
          · exact fun key value isValue => (each key (isKey key value isValue)).2 value isValue
        · intro built key member
          cases built with
          | object _ kinds builts =>
              rcases each key member with ⟨value, -, isValue, -⟩
              exact ⟨kinds key value isValue, builts key⟩

end Writing

/-- The array of the string `a\t` and the number -1. -/
def tabArray : JsonValue :=
  .array [.string [97, 9], .int (-1)]

theorem built_tabArray {kind : CString → Prop} (isKind : kind [97, 9]) : Built kind tabArray := by
  apply Built.array
  intro value member
  rcases List.mem_cons.mp member with rfl | member
  · exact .string isKind
  · rw [List.mem_singleton.mp member]
    exact .int (-1)

end Tinox.Runtime
