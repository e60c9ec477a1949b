import Mathlib.Data.List.DropRight
import Tinox.Json.Grammar
import Tinox.Runtime.JsonReader

/-!
# Reading the grammar of JSON

Every text of the grammar is read, and its value is the one that is denoted except that
strings are read without the escapes of control characters and code units.
-/

namespace Tinox.Runtime

open Probing JsonText

/-! ## Values in memory -/

/-- A value in memory stands for a denoted one. -/
inductive Denotes : JsonValue → Value → Prop where
  | null : Denotes .null .null
  | bool (value : Bool) : Denotes (.bool value) (.bool value)
  | int (value : Int64) : Denotes (.int value) (.int value.toInt)
  | string (bytes : CString) : Denotes (.string bytes) (.string bytes)
  | intArray (values : List Int64) :
      Denotes (.intArray values) (.array (values.map fun value => .int value.toInt))
  | array {values : List JsonValue} {items : List Value} : values.length = items.length →
      (∀ (i : Nat) value item, values[i]? = some value → items[i]? = some item →
        Denotes value item) →
      Denotes (.array values) (.array items)
  | object {m : TinoxMap CString JsonValue} {members : Bytes → Option Value}
      (f : CString → Option JsonValue) : Represents stringHash m f →
      (∀ name, (f name).isSome = (members name).isSome) →
      (∀ name value item, f name = some value → members name = some item → Denotes value item) →
      Denotes (.object m) (.object members)

/-- The text is read, and its value in memory stands for this one. -/
def ReadsAs (atof : CString → UInt64) (text : CString) (value : Value) : Prop :=
  ∃ result bound, (∀ fuel ≥ bound, jsonParse atof fuel (some text) = some result) ∧
    Denotes result value

theorem Denotes.unique {result : JsonValue} {value other : Value} (denotes : Denotes result value)
    (denotesOther : Denotes result other) : value = other := by
  induction denotes generalizing other with
  | null | bool value | int value | string bytes | intArray values => cases denotesOther; rfl
  | @array values items sameLength _ ih =>
      cases denotesOther with
      | @array _ others otherLength others_denoted =>
          congr 1
          apply List.ext_getElem (sameLength.symm.trans otherLength)
          intro i inside otherInside
          exact ih i _ _ (List.getElem?_eq_getElem (sameLength ▸ inside))
            (List.getElem?_eq_getElem inside)
            (others_denoted i _ _ (List.getElem?_eq_getElem (sameLength ▸ inside))
              (List.getElem?_eq_getElem otherInside))
  | @object m members f represents sameNames _ ih =>
      cases denotesOther with
      | @object _ others g representsOther otherNames others_denoted =>
          have sameMap : g = f := by
            funext name
            apply Option.ext
            intro value
            exact (representsOther.holds name value).symm.trans (represents.holds name value)
          subst sameMap
          congr 1
          funext name
          have same := (sameNames name).symm.trans (otherNames name)
          cases isItem : members name with
          | none =>
              rw [isItem] at same
              cases isOther : others name with
              | none => rfl
              | some item =>
                  rw [isOther] at same
                  cases same
          | some item =>
              rw [isItem] at same
              rcases Option.isSome_iff_exists.mp same.symm with ⟨otherItem, isOther⟩
              have isSome : (g name).isSome = true := by
                rw [sameNames, isItem]
                rfl
              rcases Option.isSome_iff_exists.mp isSome with ⟨value, isValue⟩
              rw [isOther, ih name value item isValue isItem
                (others_denoted name value otherItem isValue isOther)]

theorem ReadsAs.unique {atof : CString → UInt64} {text : CString} {value other : Value}
    (reads : ReadsAs atof text value) (readsOther : ReadsAs atof text other) : value = other := by
  rcases reads with ⟨result, bound, isResult, denotes⟩
  rcases readsOther with ⟨otherResult, otherBound, isOther, denotesOther⟩
  have same := (isResult _ (Nat.le_max_left bound otherBound)).symm.trans
    (isOther _ (Nat.le_max_right bound otherBound))
  injection same with same
  subst same
  exact denotes.unique denotesOther

theorem Denotes.all {values : List JsonValue} {items : List Value}
    (denoted : List.Forall₂ Denotes values items) : Denotes (.array values) (.array items) := by
  rcases List.forall₂_iff_get.mp denoted with ⟨sameLength, each⟩
  apply Denotes.array sameLength
  intro i value item isValue isItem
  rcases List.getElem?_eq_some_iff.mp isValue with ⟨inside, rfl⟩
  rcases List.getElem?_eq_some_iff.mp isItem with ⟨itemInside, rfl⟩
  exact each i inside itemInside

/-- The bytes that the reader makes of a character. -/
def copied : Item → CString
  | .plain char _ => String.utf8EncodeChar char
  | .escape letter => [unescape letter.letter.toUInt8]
  | .unit code _ => 'u'.toUInt8 :: code.bytes
  | .pair high low _ _ => 'u'.toUInt8 :: high.bytes ++ 'u'.toUInt8 :: low.bytes

/-- The bytes that the reader makes of a string. -/
def copiedString (items : List Item) : CString :=
  items.flatMap copied

/-- A byte that is neither a quote nor a backslash. -/
def Clean (b : UInt8) : Prop :=
  b ≠ '"'.toUInt8 ∧ b ≠ '\\'.toUInt8

theorem copyString_quote (p : CString) : copyString ('"'.toUInt8 :: p) = ([], p) := by
  cases p <;> rfl

theorem copyString_escape (esc : UInt8) (p : CString) :
    copyString ('\\'.toUInt8 :: esc :: p) = (copyString p).map (unescape esc :: ·) id := by
  rw [copyString, if_neg (by decide), if_pos rfl]

theorem copyString_cons {b : UInt8} (clean : Clean b) (p : CString) :
    copyString (b :: p) = (copyString p).map (b :: ·) id := by
  cases p with
  | nil =>
      unfold copyString
      rw [if_neg clean.1, if_neg clean.2]
      rfl
  | cons next p => rw [copyString, if_neg clean.1, if_neg clean.2]

theorem copyString_append {bs : CString} (clean : ∀ b ∈ bs, Clean b) (p : CString) :
    copyString (bs ++ p) = (copyString p).map (bs ++ ·) id := by
  induction bs with
  | nil => rfl
  | cons b bs ih =>
      rw [List.cons_append, copyString_cons (clean b List.mem_cons_self),
        ih fun other member => clean other (List.mem_cons_of_mem b member)]
      rfl

theorem code_clean (code : HexCode) : ∀ b ∈ code.bytes, Clean b := by
  intro b member
  simp only [HexCode.bytes, List.mem_cons, List.not_mem_nil, or_false] at member
  rcases member with rfl | rfl | rfl | rfl
  all_goals exact ⟨(HexDigit.byte_ne _).1, (HexDigit.byte_ne _).2.1⟩

theorem copyString_code (code : HexCode) (p : CString) :
    copyString ('\\'.toUInt8 :: 'u'.toUInt8 :: code.bytes ++ p) =
      (copyString p).map ('u'.toUInt8 :: code.bytes ++ ·) id := by
  rw [List.cons_append, List.cons_append, copyString_escape, copyString_append (code_clean code)]
  rfl

theorem copyString_item (item : Item) (p : CString) :
    copyString (item.bytes ++ p) = (copyString p).map (copied item ++ ·) id := by
  cases item with
  | plain char isPlain => exact copyString_append (fun b member => plain_ne isPlain member) p
  | escape letter => exact copyString_escape _ p
  | unit code isChar => exact copyString_code code p
  | pair high low isHigh isLow =>
      rw [Item.bytes, List.append_assoc, copyString_code, copyString_code, copied]
      simp only [Prod.map_map, Function.comp_def, List.append_assoc, id_eq]
      rfl

theorem jsonParseStringRaw_spec (items : List Item) (p : CString) :
    jsonParseStringRaw (stringBytes items ++ p) = (copiedString items, p) := by
  rw [jsonParseStringRaw, stringBytes, List.cons_append, List.cons_append, List.tail_cons,
    List.append_assoc]
  induction items with
  | nil => exact copyString_quote p
  | cons item items ih =>
      rw [stringBody, List.flatMap_cons, List.append_assoc, copyString_item]
      rw [stringBody] at ih
      rw [ih]
      rfl

/-! ## White space and numbers -/

/-- Bytes after a number that do not go on with it. -/
def Boundary (p : CString) : Prop :=
  ∀ b, p.head? = some b → isDigit b = false ∧ b ≠ '.'.toUInt8 ∧ b ≠ 'e'.toUInt8 ∧ b ≠ 'E'.toUInt8

theorem isAt_cons {c : Char} {b : UInt8} {p : CString} : isAt c (b :: p) = decide (b = c.toUInt8) := by
  rw [isAt, List.head?_cons]
  exact decide_eq_decide.mpr Option.some_inj

theorem skipByte_at (c : Char) (p : CString) : skipByte c (c.toUInt8 :: p) = p := by
  rw [skipByte, isAt_cons, if_pos (decide_eq_true rfl), List.tail_cons]

theorem skipByte_ne {c : Char} {p : CString} (apart : isAt c p = false) : skipByte c p = p := by
  rw [skipByte, if_neg (by rw [apart]; nofun)]

theorem jsonSkipWs_cons {b : UInt8} (notSpace : isSpace b = false) (p : CString) :
    jsonSkipWs (b :: p) = b :: p := by
  rw [jsonSkipWs, List.dropWhile_cons, if_neg (by rw [notSpace]; nofun)]

theorem jsonSkipWs_spaces (ws : List Space) (p : CString) :
    jsonSkipWs (spaces ws ++ p) = jsonSkipWs p := by
  induction ws with
  | nil => rfl
  | cons next ws ih =>
      have isSpace : isSpace next.byte = true := by cases next <;> decide
      rw [spaces, List.map_cons, List.cons_append, jsonSkipWs, List.dropWhile_cons, if_pos isSpace]
      exact ih

theorem jsonSkipWs_idem (p : CString) : jsonSkipWs (jsonSkipWs p) = jsonSkipWs p :=
  List.dropWhile_idempotent isSpace p

theorem Boundary.spaces (ws : List Space) {p : CString} (boundary : Boundary p) :
    Boundary (spaces ws ++ p) := by
  cases ws with
  | nil => exact boundary
  | cons next ws =>
      intro b isHead
      injection isHead with same
      subst same
      cases next <;> decide

theorem Boundary.of_cons {b : UInt8} (isEnd : isDigit b = false ∧ b ≠ '.'.toUInt8 ∧
    b ≠ 'e'.toUInt8 ∧ b ≠ 'E'.toUInt8) (p : CString) : Boundary (b :: p) := by
  intro other isHead
  injection isHead with same
  exact same ▸ isEnd

/-- The bytes of decimal digits. -/
def digitBytes (digits : List (Fin 10)) : CString :=
  digits.map fun digit : Fin 10 => '0'.toUInt8 + UInt8.ofNat digit.val

theorem isDigit_byte : ∀ digit : Fin 10, isDigit ('0'.toUInt8 + UInt8.ofNat digit.val) = true := by
  decide

theorem digit_value : ∀ digit : Fin 10,
    ('0'.toUInt8 + UInt8.ofNat digit.val - '0'.toUInt8).toNat = digit := by
  decide

theorem readDigits_spec (digits : List (Fin 10)) (start : Nat) {p : CString}
    (boundary : Boundary p) : readDigits (Int64.ofNat start) (digitBytes digits ++ p) =
      (Int64.ofNat (digits.foldl (fun value (digit : Fin 10) => value * 10 + digit.val) start), p) := by
  induction digits generalizing start with
  | nil =>
      cases p with
      | nil => rfl
      | cons b p =>
          have notDigit := (boundary b rfl).1
          exact (if_neg (by rw [notDigit]; nofun))
  | cons digit digits ih =>
      rw [digitBytes, List.map_cons, List.cons_append, readDigits, if_pos (isDigit_byte digit),
        digit_value, List.foldl_cons, ← ih, Int64.ofNat_add, Int64.ofNat_mul]
      rfl

theorem skipDigits_spec (digits : List (Fin 10)) {p : CString} (boundary : Boundary p) :
    skipDigits (digitBytes digits ++ p) = p := by
  induction digits with
  | nil =>
      cases p with
      | nil => rfl
      | cons b p =>
          have notDigit := (boundary b rfl).1
          exact List.dropWhile_cons_of_neg (by rw [notDigit]; nofun)
  | cons digit digits ih =>
      rw [digitBytes, List.map_cons, List.cons_append, skipDigits,
        List.dropWhile_cons_of_pos (isDigit_byte digit)]
      exact ih

theorem integer_bytes (number : Integer) : number.bytes =
    (if number.minus then ['-'.toUInt8] else []) ++ digitBytes (number.first :: number.rest) := by
  rw [Integer.bytes]
  cases number.minus <;> rfl

theorem skip_sign (number : Integer) (p : CString) : skipByte '-' (number.bytes ++ p) =
    digitBytes (number.first :: number.rest) ++ p ∧ isAt '-' (number.bytes ++ p) = number.minus := by
  rw [integer_bytes]
  cases number.minus with
  | true => exact ⟨skipByte_at '-' _, rfl⟩
  | false =>
      have apart : ∀ digit : Fin 10, ('0'.toUInt8 + UInt8.ofNat digit.val) ≠ '-'.toUInt8 := by decide
      have notSign : isAt '-' (digitBytes (number.first :: number.rest) ++ p) = false := by
        rw [digitBytes, List.map_cons, List.cons_append, isAt_cons]
        exact decide_eq_false (apart number.first)
      exact ⟨skipByte_ne notSign, notSign⟩

theorem readInteger_spec (number : Integer) {p : CString} (boundary : Boundary p) :
    readInteger (number.bytes ++ p) = (Int64.ofInt number.value, p) := by
  rw [readInteger, (skip_sign number p).1, (skip_sign number p).2]
  have read := readDigits_spec (number.first :: number.rest) 0 boundary
  have read' : readDigits 0 (digitBytes (number.first :: number.rest) ++ p) =
    (Int64.ofNat (decimal (number.first :: number.rest)), p) := read
  rw [read', Integer.value]
  cases number.minus with
  | true =>
      rw [if_pos rfl, if_pos rfl, ← Int64.neg_ofInt]
      rfl
  | false => rfl

theorem integer_value (number : Integer) : (Int64.ofInt number.value).toInt = number.value := by
  have within := number.within
  rw [Integer.value]
  cases isMinus : number.minus with
  | true =>
      rw [isMinus] at within
      simp only [if_true] at within ⊢
      exact Int64.toInt_ofInt_of_le (by omega) (by omega)
  | false =>
      rw [isMinus] at within
      simp only [Bool.false_eq_true, if_false] at within ⊢
      exact Int64.toInt_ofInt_of_le (by omega) (by omega)

theorem jsonParseNumber_spec (atof : CString → UInt64) (number : Integer) {p : CString}
    (boundary : Boundary p) :
    jsonParseNumber atof (number.bytes ++ p) = (.int (Int64.ofInt number.value), p) := by
  have longer : p.length ≠ (number.bytes ++ p).length := by
    rw [List.length_append, integer_bytes, List.length_append, digitBytes, List.map_cons,
      List.length_cons]
    omega
  have noFraction : skipFraction p = p := by
    apply if_neg
    cases p with
    | nil => nofun
    | cons b p =>
        rw [isAt_cons, decide_eq_true_eq]
        exact (boundary b rfl).2.1
  have noExponent : skipExponent p = p := by
    apply if_neg
    cases p with
    | nil => nofun
    | cons b p =>
        rw [isAt_cons, isAt_cons, Bool.or_eq_true, decide_eq_true_eq, decide_eq_true_eq]
        exact fun either => either.elim (boundary b rfl).2.2.1 (boundary b rfl).2.2.2
  rw [jsonParseNumber]
  simp only [(skip_sign number p).1, skipDigits_spec _ boundary, noFraction, noExponent,
    if_neg longer, if_true, readInteger_spec number boundary]

/-! ## Objects -/

/-- A map of an object, from which no key is ever removed. -/
structure Packed (m : TinoxMap CString JsonValue) (f : CString → Option JsonValue) : Prop where
  represents : Represents stringHash m f
  sparse : Sparse m
  notDeleted : ∀ i, slotAt m.entries i ≠ .deleted
  four_le : 4 ≤ m.cap

namespace Packed

variable {m : TinoxMap CString JsonValue} {f : CString → Option JsonValue}

theorem create : Packed jsonObjMapCreate fun _ => none where
  represents := {
    isPower := ⟨2, rfl⟩
    wellFormed := WellFormed.replicate_empty fun key => mapHash_lt ⟨2, rfl⟩ key
    len := rfl
    holds := by
      intro key value
      constructor
      · rintro ⟨index, isLive⟩
        rw [jsonObjMapCreate, slotAt_replicate] at isLive
        cases isLive
      · intro impossible
        cases impossible }
  sparse := ⟨⟨2, rfl⟩, rfl, Nat.succ_pos 3⟩
  notDeleted i := by
    rw [jsonObjMapCreate, slotAt_replicate]
    nofun
  four_le := Nat.le_refl 4

theorem counts {slots : List (Slot CString JsonValue)} (notDeleted : ∀ i, slotAt slots i ≠ .deleted) :
    slots.countP Slot.isLive + slots.countP Slot.isEmpty = slots.length := by
  induction slots with
  | nil => rfl
  | cons slot rest ih =>
      have counted := ih fun i => notDeleted (i + 1)
      rw [List.countP_cons, List.countP_cons, List.length_cons]
      cases slot with
      | empty => simp only [Slot.isLive, Slot.isEmpty, if_true, Bool.false_eq_true, if_false]; omega
      | deleted => exact absurd rfl (notDeleted 0)
      | live key value =>
          simp only [Slot.isLive, Slot.isEmpty, if_true, Bool.false_eq_true, if_false]; omega

theorem leavesEmpty (packed : Packed m f) (key : CString) : LeavesEmpty stringHash m key := by
  by_cases loaded : m.Loaded
  · exact Or.inl loaded
  · refine Or.inr fun _ => ?_
    have all := counts packed.notDeleted
    have four := packed.four_le
    rw [TinoxMap.Loaded, packed.sparse.len] at loaded
    rw [TinoxMap.free]
    rw [TinoxMap.cap] at loaded four
    omega

theorem storeKey_notDeleted (notDeleted : ∀ i, slotAt m.entries i ≠ .deleted)
    {m' : TinoxMap CString JsonValue} {fuel : Nat} {key : CString} {value : JsonValue}
    (done : storeKey stringHash fuel m key value = some m') :
    (∀ i, slotAt m'.entries i ≠ .deleted) ∧ m'.cap = m.cap := by
  rcases storeKey_cases done with ⟨idx, -, rfl⟩
  refine ⟨fun i => ?_, List.length_set⟩
  rcases slotAt_set_or m.entries idx (.live key value) i with same | same
  · rw [same]
    rintro ⟨⟩
  · rw [same]
    exact notDeleted i

theorem set_notDeleted (packed : Packed m f) {m' : TinoxMap CString JsonValue} {key : CString}
    {value : JsonValue} (done : jsonObjMapSet m key value = some m') :
    (∀ i, slotAt m'.entries i ≠ .deleted) ∧ m.cap ≤ m'.cap := by
  rw [jsonObjMapSet, tinoxMapSet] at done
  by_cases loaded : m.Loaded
  · rcases packed.sparse.rehash_returns with ⟨middle, rehashed, doubled⟩
    rw [if_pos loaded, rehashed] at done
    rcases storeKey_notDeleted (packed.represents.rehash rehashed).2 done with ⟨notDeleted, sameCap⟩
    exact ⟨notDeleted, by rw [sameCap, doubled]; exact Nat.le_mul_of_pos_right _ Nat.two_pos⟩
  · rw [if_neg loaded] at done
    rcases storeKey_notDeleted packed.notDeleted done with ⟨notDeleted, sameCap⟩
    exact ⟨notDeleted, Nat.le_of_eq sameCap.symm⟩

theorem set (packed : Packed m f) (key : CString) (value : JsonValue) :
    ∃ m', jsonObjMapSet m key value = some m' ∧
      Packed m' (Function.update f key (some value)) := by
  rcases packed.sparse.set_returns key value with ⟨m', done⟩
  have inOrder : InOrder stringHash m key := Or.inr fun _ _ _ _ _ _ => packed.notDeleted _
  rcases packed.set_notDeleted done with ⟨notDeleted, larger⟩
  exact ⟨m', done, packed.represents.set inOrder done,
    packed.sparse.set (packed.leavesEmpty key) done, notDeleted,
    Nat.le_trans packed.four_le larger⟩

end Packed

/-- The values in memory are those of an object, name by name. -/
structure Agrees (f : CString → Option JsonValue) (members : Bytes → Option Value) : Prop where
  sameNames : ∀ name, (f name).isSome = (members name).isSome
  denotes : ∀ name value item, f name = some value → members name = some item → Denotes value item

theorem Agrees.set {f : CString → Option JsonValue} {entries : List (Bytes × Value)}
    (agrees : Agrees f (lastValue entries)) {name : Bytes} {value : JsonValue} {item : Value}
    (denotes : Denotes value item) :
    Agrees (Function.update f name (some value)) (lastValue (entries ++ [(name, item)])) := by
  rw [lastValue_append]
  constructor
  · intro other
    by_cases same : other = name
    · rw [same, Function.update_self, Function.update_self]
      rfl
    · rw [Function.update_of_ne same, Function.update_of_ne same]
      exact agrees.sameNames other
  · intro other found expected isFound isExpected
    by_cases same : other = name
    · subst same
      rw [Function.update_self, Option.some.injEq] at isFound isExpected
      rw [← isFound, ← isExpected]
      exact denotes
    · rw [Function.update_of_ne same] at isFound isExpected
      exact agrees.denotes other found expected isFound isExpected

theorem Agrees.object {m : TinoxMap CString JsonValue} {f : CString → Option JsonValue}
    {members : Bytes → Option Value} (agrees : Agrees f members) (packed : Packed m f) :
    Denotes (.object m) (.object members) :=
  Denotes.object f packed.represents agrees.sameNames agrees.denotes

theorem noMembers : Agrees (fun _ => none) (lastValue []) :=
  ⟨fun _ => rfl, fun _ _ _ impossible => by cases impossible⟩

/-! ## Trees -/

/-- A byte that a value starts with: neither white space nor an end of an array. -/
def Starts (b : UInt8) : Prop :=
  isSpace b = false ∧ b ≠ ']'.toUInt8

instance (b : UInt8) : Decidable (Starts b) :=
  inferInstanceAs (Decidable (_ ∧ _))

theorem starts_digit : ∀ digit : Fin 10, Starts ('0'.toUInt8 + UInt8.ofNat digit.val) := by
  decide

theorem text_starts (tree : Tree) : ∃ b tail, tree.text = b :: tail ∧ Starts b := by
  cases tree with
  | null | string items | emptyArray inner | array elements | emptyObject inner | object members =>
      exact ⟨_, _, rfl, by decide⟩
  | bool value => cases value <;> exact ⟨_, _, rfl, by decide⟩
  | int number =>
      rw [Tree.text, integer_bytes]
      cases number.minus with
      | true => exact ⟨_, _, rfl, by decide⟩
      | false => exact ⟨_, _, rfl, starts_digit number.first⟩

theorem skip_text (before : List Space) (tree : Tree) (p : CString) :
    jsonSkipWs (spaces before ++ (tree.text ++ p)) = tree.text ++ p := by
  rcases text_starts tree with ⟨b, tail, isText, starts⟩
  rw [jsonSkipWs_spaces, isText, List.cons_append, jsonSkipWs_cons starts.1]

theorem skip_name (before : List Space) (name : List Item) (p : CString) :
    jsonSkipWs (spaces before ++ (stringBytes name ++ p)) = stringBytes name ++ p :=
  skip_text before (.string name) p

theorem skip_colon (afterName : List Space) (p : CString) :
    skipByte ':' (jsonSkipWs (spaces afterName ++ ':'.toUInt8 :: p)) = p := by
  rw [jsonSkipWs_spaces, jsonSkipWs_cons (by decide), skipByte_at]

/-- Skipping stops at a byte only if the text does not start with an end. -/
theorem not_end {c : Char} (notSpace : isSpace c.toUInt8 = false) {p tail : CString} {b : UInt8}
    (skipped : jsonSkipWs p = b :: tail) (apart : b ≠ c.toUInt8) :
    p.isEmpty = false ∧ isAt c p = false := by
  cases p with
  | nil => cases skipped
  | cons first p =>
      refine ⟨rfl, ?_⟩
      rw [isAt_cons]
      apply decide_eq_false
      rintro rfl
      rw [jsonSkipWs_cons notSpace] at skipped
      injection skipped with same
      exact apart same.symm

/-- With enough fuel a loop ends with this result. -/
def Eventually {α : Type} (run : Nat → Option α) (result : α) : Prop :=
  ∃ bound, ∀ fuel ≥ bound, run fuel = some result

theorem Eventually.step {α : Type} {run next : Nat → Option α} {result : α}
    (steps : ∀ fuel, run (fuel + 1) = next fuel) (later : Eventually next result) :
    Eventually run result := by
  rcases later with ⟨bound, later⟩
  refine ⟨bound + 1, fun fuel enough => ?_⟩
  cases fuel with
  | zero => omega
  | succ fuel => exact (steps fuel).trans (later fuel (Nat.le_of_succ_le_succ enough))

theorem Eventually.unique {α : Type} {run : Nat → Option α} {result other : α}
    (first : Eventually run result) (second : Eventually run other) : result = other := by
  obtain ⟨bound, isResult⟩ := first
  obtain ⟨bound', isOther⟩ := second
  have same := isResult (max bound bound') (Nat.le_max_left _ _)
  rw [isOther (max bound bound') (Nat.le_max_right _ _)] at same
  exact (Option.some.inj same).symm

theorem Eventually.now {α : Type} (result : α) : Eventually (fun _ => some result) result :=
  ⟨0, fun _ _ => rfl⟩

theorem Eventually.bind {α β : Type} {run : Nat → Option α} {result : α} {next : α → Nat → Option β}
    {last : β} (first : Eventually run result) (second : Eventually (next result) last) :
    Eventually (fun fuel => match run fuel with
      | none => none
      | some result => next result fuel) last := by
  rcases first with ⟨firstBound, first⟩
  rcases second with ⟨secondBound, second⟩
  refine ⟨max firstBound secondBound, fun fuel enough => ?_⟩
  simp only [first fuel (Nat.le_trans (Nat.le_max_left _ _) enough)]
  exact second fuel (Nat.le_trans (Nat.le_max_right _ _) enough)

section Reading

variable (atof : CString → UInt64)

theorem read_scalar {p tail : CString} {b : UInt8} (skipped : jsonSkipWs p = b :: tail)
    (isScalar : b ≠ '"'.toUInt8 ∧ b ≠ '{'.toUInt8 ∧ b ≠ '['.toUInt8) :
    Eventually (fun fuel => jsonParseValue atof fuel p) (jsonParseScalar atof (b :: tail)) := by
  refine Eventually.step (fun fuel => ?_) (Eventually.now _)
  simp only [jsonParseValue, skipped, List.isEmpty_cons, isAt_cons, decide_eq_true_eq, isScalar.1,
    isScalar.2.1, isScalar.2.2, if_false, Bool.false_eq_true]

theorem read_string {p text bytes rest : CString} (skipped : jsonSkipWs p = '"'.toUInt8 :: text)
    (raw : jsonParseStringRaw ('"'.toUInt8 :: text) = (bytes, rest)) :
    Eventually (fun fuel => jsonParseValue atof fuel p) (.string bytes, rest) := by
  refine Eventually.step (fun fuel => ?_) (Eventually.now _)
  have isQuote : isAt '"' ('"'.toUInt8 :: text) = true := rfl
  simp only [jsonParseValue, skipped, List.isEmpty_cons, isQuote, if_true, Bool.false_eq_true,
    if_false, raw]
  rfl

theorem read_numeric {p tail : CString} {b : UInt8} (skipped : jsonSkipWs p = b :: tail)
    (starts : b = '-'.toUInt8 ∨ ∃ digit : Fin 10, b = '0'.toUInt8 + UInt8.ofNat digit.val) :
    Eventually (fun fuel => jsonParseValue atof fuel p) (jsonParseNumber atof (b :: tail)) := by
  have apart : (b ≠ '"'.toUInt8 ∧ b ≠ '{'.toUInt8 ∧ b ≠ '['.toUInt8) ∧
      b ≠ 't'.toUInt8 ∧ b ≠ 'f'.toUInt8 ∧ b ≠ 'n'.toUInt8 := by
    rcases starts with rfl | ⟨digit, rfl⟩
    · decide
    · clear skipped
      revert digit
      decide
  rcases apart with ⟨isScalar, notTrue, notFalse, notNull⟩
  have read := read_scalar atof skipped isScalar
  have noLiteral : ∀ literal : CString, ∀ c, c ≠ b → ¬ c :: literal <+: b :: tail :=
    fun literal c apart isPrefix => apart (List.cons_prefix_cons.mp isPrefix).1
  have noTrue : ¬ "true".toList.map Char.toUInt8 <+: b :: tail := noLiteral _ _ notTrue.symm
  have noFalse : ¬ "false".toList.map Char.toUInt8 <+: b :: tail := noLiteral _ _ notFalse.symm
  have noNull : ¬ "null".toList.map Char.toUInt8 <+: b :: tail := noLiteral _ _ notNull.symm
  rwa [jsonParseScalar, if_neg noTrue, if_neg noFalse, if_neg noNull] at read

theorem read_number {p rest : CString} {number : Integer}
    (skipped : jsonSkipWs p = number.bytes ++ rest) (boundary : Boundary rest) :
    Eventually (fun fuel => jsonParseValue atof fuel p) (.int (Int64.ofInt number.value), rest) := by
  rw [← jsonParseNumber_spec atof number boundary]
  rw [integer_bytes] at skipped ⊢
  cases isMinus : number.minus with
  | true =>
      rw [isMinus] at skipped
      exact read_numeric atof skipped (.inl rfl)
  | false =>
      rw [isMinus] at skipped
      exact read_numeric atof skipped (.inr ⟨number.first, rfl⟩)

theorem read_object {p tail : CString} {result : JsonValue × CString}
    (skipped : jsonSkipWs p = '{'.toUInt8 :: tail)
    (later : Eventually (fun fuel => jsonParseMembers atof fuel jsonObjMapCreate (jsonSkipWs tail))
      result) :
    Eventually (fun fuel => jsonParseValue atof fuel p) result := by
  refine Eventually.step (fun fuel => ?_) later
  simp only [jsonParseValue, skipped]
  rfl

theorem read_emptyArray {p rest : CString} (inner : List Space)
    (skipped : jsonSkipWs p = '['.toUInt8 :: spaces inner ++ ']'.toUInt8 :: rest) :
    Eventually (fun fuel => jsonParseValue atof fuel p) (.intArray [], rest) := by
  refine Eventually.step (fun fuel => ?_) (Eventually.now _)
  have skippedInner : jsonSkipWs (spaces inner ++ ']'.toUInt8 :: rest) = ']'.toUInt8 :: rest := by
    rw [jsonSkipWs_spaces]
    exact jsonSkipWs_cons (by decide) rest
  rw [List.cons_append] at skipped
  have isEnd : isAt ']' (']'.toUInt8 :: rest) = true := rfl
  have isStart : isAt '[' ('['.toUInt8 :: (spaces inner ++ ']'.toUInt8 :: rest)) = true := rfl
  have notQuote : isAt '"' ('['.toUInt8 :: (spaces inner ++ ']'.toUInt8 :: rest)) = false := rfl
  have notBrace : isAt '{' ('['.toUInt8 :: (spaces inner ++ ']'.toUInt8 :: rest)) = false := rfl
  simp only [jsonParseValue, skipped, List.isEmpty_cons, Bool.false_eq_true, if_false, notQuote,
    notBrace, isStart, if_true, List.tail_cons, skippedInner, isEnd]

/-- What follows the attempt to read an array of integers. -/
def afterIntegers (p : CString) :
    Option (List Int64 × CString) → Nat → Option (JsonValue × CString)
  | some (values, rest), _ => some (.intArray values, rest)
  | none, fuel => jsonParseElements atof fuel [] p

theorem read_array {p tail first : CString} {b : UInt8}
    (skipped : jsonSkipWs p = '['.toUInt8 :: tail) (inner : jsonSkipWs tail = b :: first)
    (starts : Starts b) {integers : Option (List Int64 × CString)} {result : JsonValue × CString}
    (attempt : Eventually (fun fuel => jsonParseIntegers fuel [] (b :: first)) integers)
    (later : Eventually (afterIntegers atof (b :: first) integers) result) :
    Eventually (fun fuel => jsonParseValue atof fuel p) result := by
  refine Eventually.step (fun fuel => ?_) (attempt.bind later)
  have isStart : isAt '[' ('['.toUInt8 :: tail) = true := rfl
  have notQuote : isAt '"' ('['.toUInt8 :: tail) = false := rfl
  have notBrace : isAt '{' ('['.toUInt8 :: tail) = false := rfl
  have notEnd : isAt ']' (b :: first) = false := by
    rw [isAt_cons]
    exact decide_eq_false starts.2
  simp only [jsonParseValue, skipped, List.isEmpty_cons, Bool.false_eq_true, if_false, notQuote,
    notBrace, isStart, if_true, List.tail_cons, inner, notEnd]
  cases jsonParseIntegers fuel [] (b :: first) with
  | none => rfl
  | some found => cases found <;> rfl

theorem read_element {p next tail : CString} {b : UInt8} {values : List JsonValue}
    {value : JsonValue} {result : JsonValue × CString}
    (skipped : jsonSkipWs p = b :: tail) (starts : Starts b)
    (element : Eventually (fun fuel => jsonParseValue atof fuel p) (value, next))
    (later : Eventually (fun fuel => jsonParseElements atof fuel (values ++ [value])
      (jsonSkipWs (skipByte ',' (jsonSkipWs next)))) result) :
    Eventually (fun fuel => jsonParseElements atof fuel values p) result := by
  rcases @not_end ']' (by decide) _ _ _ skipped starts.2 with ⟨notEmpty, notEnd⟩
  have both := @Eventually.bind _ _ _ _ (fun found fuel => jsonParseElements atof fuel
    (values ++ [found.1]) (jsonSkipWs (skipByte ',' (jsonSkipWs found.2)))) _ element later
  refine Eventually.step (fun fuel => ?_) both
  simp only [jsonParseElements, notEmpty, notEnd, Bool.or_self, Bool.false_eq_true, if_false]
  cases jsonParseValue atof fuel p <;> rfl

theorem read_elementsEnd (values : List JsonValue) (rest : CString) :
    Eventually (fun fuel => jsonParseElements atof fuel values (']'.toUInt8 :: rest))
      (.array values, rest) := by
  refine Eventually.step (fun fuel => ?_) (Eventually.now _)
  have isEnd : isAt ']' (']'.toUInt8 :: rest) = true := rfl
  simp only [jsonParseElements, isEnd, Bool.or_true, if_true, skipByte_at]

theorem read_member {p text name next rest : CString} {m m' : TinoxMap CString JsonValue}
    {value : JsonValue} {result : JsonValue × CString}
    (skipped : jsonSkipWs p = '"'.toUInt8 :: text)
    (raw : jsonParseStringRaw ('"'.toUInt8 :: text) = (name, rest))
    (member : Eventually (fun fuel => jsonParseValue atof fuel (skipByte ':' (jsonSkipWs rest)))
      (value, next))
    (isSet : jsonObjMapSet m name value = some m')
    (later : Eventually (fun fuel => jsonParseMembers atof fuel m' (skipByte ',' (jsonSkipWs next)))
      result) :
    Eventually (fun fuel => jsonParseMembers atof fuel m p) result := by
  rcases @not_end '}' (by decide) _ _ _ skipped (by decide) with ⟨notEmpty, notEnd⟩
  have isQuote : isAt '"' ('"'.toUInt8 :: text) = true := rfl
  have both := @Eventually.bind _ _ _ _ (fun found fuel =>
    (jsonObjMapSet m name found.1).bind fun m =>
      jsonParseMembers atof fuel m (skipByte ',' (jsonSkipWs found.2))) _ member
    (by simp only [isSet, Option.bind_some]; exact later)
  refine Eventually.step (fun fuel => ?_) both
  simp only [jsonParseMembers, notEmpty, notEnd, Bool.or_self, Bool.false_eq_true, if_false, skipped,
    isQuote, Bool.not_true, raw]
  cases jsonParseValue atof fuel (skipByte ':' (jsonSkipWs rest)) with
  | none => rfl
  | some found =>
      rcases found with ⟨val, behind⟩
      dsimp only
      cases jsonObjMapSet m name val <;> rfl

theorem read_membersEnd (m : TinoxMap CString JsonValue) (rest : CString) :
    Eventually (fun fuel => jsonParseMembers atof fuel m ('}'.toUInt8 :: rest)) (.object m, rest) := by
  refine Eventually.step (fun fuel => ?_) (Eventually.now _)
  have isEnd : isAt '}' ('}'.toUInt8 :: rest) = true := rfl
  simp only [jsonParseMembers, isEnd, Bool.or_true, if_true, skipByte_at]

end Reading

theorem elements_start (elements : Elements) (p : CString) :
    ∃ b tail, jsonSkipWs (elements.text ++ p) = b :: tail ∧ Starts b := by
  cases elements with
  | last before element after =>
      rcases text_starts element with ⟨b, tail, isText, starts⟩
      rw [Elements.text, List.append_assoc, List.append_assoc, skip_text, isText, List.cons_append]
      exact ⟨b, _, rfl, starts⟩
  | more before element after others =>
      rcases text_starts element with ⟨b, tail, isText, starts⟩
      rw [Elements.text, List.append_assoc, List.append_assoc, List.append_assoc, skip_text, isText,
        List.cons_append]
      exact ⟨b, _, rfl, starts⟩

/-! ### Integers -/

/-- Values of integers. -/
def integerItems (values : List Int64) : List Value :=
  values.map fun value => .int value.toInt

theorem boundary_next {b : UInt8} (isEnd : (isDigit b = false ∧ b ≠ '.'.toUInt8 ∧
    b ≠ 'e'.toUInt8 ∧ b ≠ 'E'.toUInt8) ∧ isSpace b = false) (after : List Space) (tail : CString) :
    Boundary (spaces after ++ b :: tail) ∧ jsonSkipWs (spaces after ++ b :: tail) = b :: tail := by
  rw [jsonSkipWs_spaces]
  exact ⟨Boundary.spaces after (Boundary.of_cons isEnd.1 tail), jsonSkipWs_cons isEnd.2 tail⟩

theorem read_integer {p rest tail : CString} {b : UInt8} {number : Integer} {after : List Space}
    {values : List Int64} {result : Option (List Int64 × CString)}
    (skipped : jsonSkipWs p = number.bytes ++ (spaces after ++ rest)) (isRest : rest = b :: tail)
    (isNext : b = ','.toUInt8 ∨ b = ']'.toUInt8)
    (later : Eventually (fun fuel => jsonParseIntegers fuel (values ++ [Int64.ofInt number.value])
      (skipByte ',' rest)) result) :
    Eventually (fun fuel => jsonParseIntegers fuel values p) result := by
  rcases text_starts (.int number) with ⟨first, others, isText, starts⟩
  rw [Tree.text] at isText
  have skippedFirst : jsonSkipWs p = first :: (others ++ (spaces after ++ rest)) := by
    rw [skipped, isText, List.cons_append]
  rcases @not_end ']' (by decide) _ _ _ skippedFirst starts.2 with ⟨notEmpty, notEnd⟩
  have isEnd : (isDigit b = false ∧ b ≠ '.'.toUInt8 ∧ b ≠ 'e'.toUInt8 ∧ b ≠ 'E'.toUInt8) ∧
      isSpace b = false := by
    rcases isNext with rfl | rfl <;> decide
  rcases boundary_next isEnd after tail with ⟨boundary, skippedRest⟩
  rw [← isRest] at boundary skippedRest
  have isNumber : (skipByte '-' (jsonSkipWs p)).head?.any isDigit = true := by
    rw [skipped, (skip_sign number _).1]
    exact isDigit_byte number.first
  have goesOn : (isAt ',' rest || isAt ']' rest) = true := by
    rw [isRest, isAt_cons, isAt_cons, Bool.or_eq_true, decide_eq_true_eq, decide_eq_true_eq]
    exact isNext
  refine Eventually.step (fun fuel => ?_) later
  rw [jsonParseIntegers, notEmpty, notEnd, isNumber, skipped, readInteger_spec number boundary]
  simp only [Bool.false_eq_true, if_false, Bool.not_true, skippedRest, goesOn, if_true]

theorem read_notInteger {p tail : CString} {b : UInt8} (values : List Int64)
    (skipped : jsonSkipWs p = b :: tail) (starts : Starts b) (notSign : b ≠ '-'.toUInt8)
    (notDigit : isDigit b = false) :
    Eventually (fun fuel => jsonParseIntegers fuel values p) none := by
  rcases @not_end ']' (by decide) _ _ _ skipped starts.2 with ⟨notEmpty, notEnd⟩
  have noNumber : (skipByte '-' (jsonSkipWs p)).head?.any isDigit = false := by
    rw [skipped, skipByte_ne (by rw [isAt_cons]; exact decide_eq_false notSign)]
    exact notDigit
  refine Eventually.step (fun fuel => ?_) (Eventually.now none)
  rw [jsonParseIntegers, notEmpty, notEnd, noNumber]
  rfl

theorem read_integersEnd (values : List Int64) (rest : CString) :
    Eventually (fun fuel => jsonParseIntegers fuel values (']'.toUInt8 :: rest))
      (some (values, rest)) := by
  refine Eventually.step (fun fuel => ?_) (Eventually.now _)
  rw [jsonParseIntegers]
  rfl

theorem integer_or_not (element : Tree) : (∃ number, element = .int number) ∨
    ∃ b tail, element.text = b :: tail ∧ b ≠ '-'.toUInt8 ∧ isDigit b = false := by
  cases element with
  | null | string items | emptyArray inner | array elements | emptyObject inner | object members =>
      exact Or.inr ⟨_, _, rfl, by decide⟩
  | bool value => cases value <;> exact Or.inr ⟨_, _, rfl, by decide⟩
  | int number => exact Or.inl ⟨number, rfl⟩

theorem integerItems_cons (number : Integer) (values : List Int64) :
    integerItems (Int64.ofInt number.value :: values) = .int number.value :: integerItems values := by
  rw [integerItems, List.map_cons, integer_value]
  rfl

/-- The attempt at an array ends at its end with its integers, or with nothing. -/
theorem read_integers (elements : Elements) {p rest : CString} (values : List Int64)
    (skipped : jsonSkipWs p = jsonSkipWs (elements.text ++ ']'.toUInt8 :: rest)) :
    ∃ result, Eventually (fun fuel => jsonParseIntegers fuel values p) result ∧
      (result = none ∨ ∃ integers, result = some (values ++ integers, rest) ∧
        elements.valuesBy copiedString = integerItems integers) := by
  cases elements with
  | last before element after =>
      rw [Elements.text, List.append_assoc, List.append_assoc, skip_text] at skipped
      rcases integer_or_not element with ⟨number, rfl⟩ | ⟨b, tail, isText, notSign, notDigit⟩
      · refine ⟨_, read_integer skipped rfl (Or.inr rfl) (read_integersEnd _ _), Or.inr
          ⟨[Int64.ofInt number.value], rfl, ?_⟩⟩
        rw [Elements.valuesBy, Tree.valueBy, integerItems_cons]
        rfl
      · rcases text_starts element with ⟨first, others, isFirst, starts⟩
        rw [isText] at isFirst
        injection isFirst with same
        subst same
        rw [isText] at skipped
        exact ⟨none, read_notInteger values skipped starts notSign notDigit, Or.inl rfl⟩
  | more before element after others =>
      rw [Elements.text, List.append_assoc, List.append_assoc, List.append_assoc, skip_text] at skipped
      rcases integer_or_not element with ⟨number, rfl⟩ | ⟨b, tail, isText, notSign, notDigit⟩
      · have next : skipByte ',' (','.toUInt8 :: others.text ++ ']'.toUInt8 :: rest) =
            others.text ++ ']'.toUInt8 :: rest := skipByte_at ',' _
        rcases read_integers others (p := others.text ++ ']'.toUInt8 :: rest)
          (values ++ [Int64.ofInt number.value]) rfl with ⟨result, later, either⟩
        refine ⟨result, read_integer skipped rfl (Or.inl rfl) (by rw [next]; exact later), ?_⟩
        apply either.imp_right
        rintro ⟨integers, isResult, isValues⟩
        refine ⟨Int64.ofInt number.value :: integers, ?_, ?_⟩
        · rw [isResult, List.append_assoc]
          rfl
        · rw [Elements.valuesBy, Tree.valueBy, isValues, integerItems_cons]
      · rcases text_starts element with ⟨first, tail', isFirst, starts⟩
        rw [isText] at isFirst
        injection isFirst with same
        subst same
        rw [isText] at skipped
        exact ⟨none, read_notInteger values skipped starts notSign notDigit, Or.inl rfl⟩

/-! ### The whole grammar -/

section Grammar

variable (atof : CString → UInt64)

mutual

theorem read_tree (tree : Tree) {p rest : CString} (skipped : jsonSkipWs p = tree.text ++ rest)
    (boundary : Boundary rest) :
    ∃ value, Eventually (fun fuel => jsonParseValue atof fuel p) (value, rest) ∧
      Denotes value (tree.valueBy copiedString) := by
  cases tree with
  | null => exact ⟨.null, read_scalar atof skipped (by decide), .null⟩
  | bool value =>
      cases value with
      | true => exact ⟨.bool true, read_scalar atof skipped (by decide), .bool true⟩
      | false => exact ⟨.bool false, read_scalar atof skipped (by decide), .bool false⟩
  | int number =>
      have denotes := Denotes.int (Int64.ofInt number.value)
      rw [integer_value] at denotes
      exact ⟨_, read_number atof skipped boundary, denotes⟩
  | string items =>
      exact ⟨_, read_string atof skipped (jsonParseStringRaw_spec items rest), .string _⟩
  | emptyArray inner =>
      rw [Tree.text, List.append_assoc] at skipped
      exact ⟨_, read_emptyArray atof inner skipped, .intArray []⟩
  | array elements =>
      rw [Tree.text, List.append_assoc, List.cons_append] at skipped
      rcases elements_start elements (']'.toUInt8 :: rest) with ⟨b, first, inner, starts⟩
      have innerAgain : jsonSkipWs (b :: first) = jsonSkipWs (elements.text ++ ']'.toUInt8 :: rest) := by
        rw [← inner, jsonSkipWs_idem]
      rcases read_integers elements [] innerAgain with ⟨integers, attempt, rfl | ⟨values, rfl, isValues⟩⟩
      · rcases read_elements elements innerAgain [] with ⟨values, read, denoted⟩
        exact ⟨_, read_array atof skipped inner starts attempt read, Denotes.all denoted⟩
      · refine ⟨_, read_array atof skipped inner starts attempt (Eventually.now _), ?_⟩
        rw [Tree.valueBy, isValues]
        exact .intArray values
  | emptyObject inner =>
      rw [Tree.text, List.append_assoc, List.cons_append] at skipped
      have inside : jsonSkipWs (spaces inner ++ (['}'.toUInt8] ++ rest)) = '}'.toUInt8 :: rest := by
        rw [jsonSkipWs_spaces]
        exact jsonSkipWs_cons (by decide) rest
      have ended := read_membersEnd atof jsonObjMapCreate rest
      rw [← inside] at ended
      exact ⟨_, read_object atof skipped ended, noMembers.object Packed.create⟩
  | object members =>
      rw [Tree.text, List.append_assoc, List.cons_append] at skipped
      rcases read_members members (jsonSkipWs_idem (members.text ++ '}'.toUInt8 :: rest)) Packed.create
        noMembers with ⟨m, f, read, packed, agrees⟩
      exact ⟨.object m, read_object atof skipped read, agrees.object packed⟩

theorem read_elements (elements : Elements) {p rest : CString}
    (skipped : jsonSkipWs p = jsonSkipWs (elements.text ++ ']'.toUInt8 :: rest))
    (values : List JsonValue) :
    ∃ read, Eventually (fun fuel => jsonParseElements atof fuel values p)
        (.array (values ++ read), rest) ∧
      List.Forall₂ Denotes read (elements.valuesBy copiedString) := by
  rcases elements_start elements (']'.toUInt8 :: rest) with ⟨b, tail, isStart, starts⟩
  have skippedStart := skipped.trans isStart
  cases elements with
  | last before element after =>
      rw [Elements.text, List.append_assoc, List.append_assoc, skip_text] at skipped
      rcases @boundary_next ']'.toUInt8 (by decide) after rest with ⟨boundary, skippedRest⟩
      rcases read_tree element skipped boundary with ⟨value, read, denotes⟩
      have ended := read_elementsEnd atof (values ++ [value]) rest
      refine ⟨[value], read_element atof skippedStart starts read ?_, .cons denotes .nil⟩
      rw [skippedRest, skipByte_ne rfl, jsonSkipWs_cons (by decide)]
      exact ended
  | more before element after others =>
      rw [Elements.text, List.append_assoc, List.append_assoc, List.append_assoc, skip_text] at skipped
      rcases @boundary_next ','.toUInt8 (by decide) after (others.text ++ ']'.toUInt8 :: rest) with
        ⟨boundary, skippedRest⟩
      rcases read_tree element skipped boundary with ⟨value, read, denotes⟩
      rcases read_elements others (jsonSkipWs_idem (others.text ++ ']'.toUInt8 :: rest))
        (values ++ [value]) with ⟨later, readLater, denotesLater⟩
      refine ⟨value :: later, read_element atof skippedStart starts read ?_,
        .cons denotes denotesLater⟩
      rw [List.cons_append, skippedRest, skipByte_at]
      rw [List.append_assoc] at readLater
      exact readLater

theorem read_members (members : Members) {p rest : CString} {m : TinoxMap CString JsonValue}
    {f : CString → Option JsonValue} {done : List (Bytes × Value)}
    (skipped : jsonSkipWs p = jsonSkipWs (members.text ++ '}'.toUInt8 :: rest))
    (packed : Packed m f) (agrees : Agrees f (lastValue done)) :
    ∃ m' f', Eventually (fun fuel => jsonParseMembers atof fuel m p) (.object m', rest) ∧
      Packed m' f' ∧ Agrees f' (lastValue (done ++ members.valuesBy copiedString)) := by
  cases members with
  | last before name afterName beforeValue value after =>
      simp only [Members.text, List.append_assoc, List.cons_append] at skipped
      rw [skip_name] at skipped
      rcases @boundary_next '}'.toUInt8 (by decide) after rest with ⟨boundary, skippedRest⟩
      rcases read_tree value (skip_text beforeValue value _) boundary with ⟨result, read, denotes⟩
      rcases packed.set (copiedString name) result with ⟨m', isSet, packed'⟩
      rw [← skip_colon afterName (spaces beforeValue ++ (value.text ++ _))] at read
      refine ⟨m', _, read_member atof skipped (jsonParseStringRaw_spec name _) read isSet ?_,
        packed', agrees.set denotes⟩
      rw [skippedRest, skipByte_ne rfl]
      exact read_membersEnd atof m' rest
  | more before name afterName beforeValue value after others =>
      simp only [Members.text, List.append_assoc, List.cons_append] at skipped
      rw [skip_name] at skipped
      rcases @boundary_next ','.toUInt8 (by decide) after (others.text ++ '}'.toUInt8 :: rest) with
        ⟨boundary, skippedRest⟩
      rcases read_tree value (skip_text beforeValue value _) boundary with ⟨result, read, denotes⟩
      rcases packed.set (copiedString name) result with ⟨m', isSet, packed'⟩
      rcases read_members others rfl packed' (agrees.set denotes) with
        ⟨m'', f'', later, packed'', agrees''⟩
      rw [← skip_colon afterName (spaces beforeValue ++ (value.text ++ _))] at read
      refine ⟨m'', f'', read_member atof skipped (jsonParseStringRaw_spec name _) read isSet ?_,
        packed'', ?_⟩
      · rw [skippedRest, skipByte_at]
        exact later
      · rw [List.append_assoc] at agrees''
        exact agrees''

end

end Grammar

theorem jsonParse_reads (atof : CString → UInt64) (document : Document) :
    ReadsAs atof document.text (document.tree.valueBy copiedString) := by
  have skipped : jsonSkipWs document.text = document.tree.text ++ spaces document.after := by
    rw [Document.text, List.append_assoc, skip_text]
  have boundary : Boundary (spaces document.after) := by
    rw [← List.append_nil (spaces document.after)]
    exact Boundary.spaces document.after nofun
  rcases read_tree atof document.tree skipped boundary with ⟨value, ⟨bound, read⟩, denotes⟩
  refine ⟨value, bound, fun fuel enough => ?_, denotes⟩
  exact congrArg (Option.map Prod.fst) (read fuel enough)

end Tinox.Runtime
