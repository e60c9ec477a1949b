import Tinox.Runtime.JsonWrites

/-!
# Writing the grammar of JSON

What is written is a text of the grammar when no string has a control character that the
writers leave as it is, and in no other case.
-/

namespace Tinox.Runtime

open JsonText

theorem coveredString_append {first second : CString} :
    CoveredString (first ++ second) ↔ CoveredString first ∧ CoveredString second :=
  List.forall_mem_append

theorem coveredString_cons {b : UInt8} {bytes : CString} :
    CoveredString (b :: bytes) ↔ Covered b ∧ CoveredString bytes :=
  List.forall_mem_cons

theorem covered_char {b : UInt8} (large : 0x20 ≤ b) : Covered b :=
  Or.inl large

theorem covered_all {bytes : CString} (large : bytes.all (fun b => decide (0x20 ≤ b)) = true) :
    CoveredString bytes :=
  fun b member => Or.inl (of_decide_eq_true (List.all_eq_true.mp large b member))

theorem covered_escape (letter : Escape) : CoveredString (Item.escape letter).bytes := by
  apply covered_all
  cases letter <;> decide

theorem covered_digit (digit : HexDigit) : Covered digit.byte := by
  have isLarge : ∀ digit : HexDigit, 0x20 ≤ digit.byte := by
    rintro ⟨value, upper⟩
    revert value upper
    decide
  exact Or.inl (isLarge digit)

theorem covered_code (code : HexCode) :
    CoveredString ('\\'.toUInt8 :: 'u'.toUInt8 :: code.bytes) := by
  intro b member
  simp only [HexCode.bytes, List.mem_cons, List.not_mem_nil, or_false] at member
  rcases member with rfl | rfl | rfl | rfl | rfl | rfl
  · exact Or.inl (by decide)
  · exact Or.inl (by decide)
  all_goals exact covered_digit _

theorem covered_item (item : Item) : CoveredString item.bytes := by
  intro b member
  cases item with
  | plain char isPlain =>
      rw [Item.bytes] at member
      refine Or.inl (UInt8.le_iff_toNat_le.mpr ?_)
      rcases mem_utf8EncodeChar member with same | high
      · exact same ▸ isPlain.1
      · exact Nat.le_trans (by decide) high
  | escape letter => exact covered_escape letter b member
  | unit code isChar => exact covered_code code b member
  | pair high low isHigh isLow =>
      rcases List.mem_append.mp member with first | second
      · exact covered_code high b first
      · exact covered_code low b second

theorem covered_string (items : List Item) : CoveredString (stringBytes items) := by
  intro b member
  rw [stringBytes, List.cons_append, List.mem_cons, List.mem_append, List.mem_singleton, stringBody,
    List.mem_flatMap] at member
  rcases member with rfl | ⟨item, -, inItem⟩ | rfl
  · exact Or.inl (by decide)
  · exact covered_item item b inItem
  · exact Or.inl (by decide)

theorem covered_spaces (ws : List Space) : CoveredString (spaces ws) := by
  intro b member
  rcases List.mem_map.mp member with ⟨next, -, rfl⟩
  cases next
  · exact Or.inl (by decide)
  · exact Or.inr (Or.inl rfl)
  · exact Or.inr (Or.inr (Or.inl rfl))
  · exact Or.inr (Or.inr (Or.inr rfl))

theorem covered_integer (number : Integer) : CoveredString number.bytes := by
  have isLarge : ∀ digit : Fin 10, 0x20 ≤ '0'.toUInt8 + UInt8.ofNat digit.val := by decide
  intro b member
  rw [integer_bytes, List.mem_append] at member
  rcases member with sign | digit
  · cases isMinus : number.minus with
    | true =>
        rw [isMinus] at sign
        rw [List.mem_singleton.mp sign]
        exact Or.inl (by decide)
    | false =>
        rw [isMinus] at sign
        cases sign
  · rcases List.mem_map.mp digit with ⟨value, -, rfl⟩
    exact Or.inl (isLarge value)

theorem covered_between {opening closing : UInt8} {inner : CString} (isOpening : 0x20 ≤ opening)
    (isClosing : 0x20 ≤ closing) (covered : CoveredString inner) :
    CoveredString (opening :: inner ++ [closing]) := by
  rw [List.cons_append, coveredString_cons, coveredString_append]
  refine ⟨covered_char isOpening, covered, fun b member => ?_⟩
  rw [List.mem_singleton.mp member]
  exact covered_char isClosing

mutual

/-- No text of the grammar has a control character other than tabs and ends of lines. -/
theorem covered_tree (tree : Tree) : CoveredString tree.text := by
  cases tree with
  | null => exact covered_all (by decide)
  | bool value => cases value <;> exact covered_all (by decide)
  | int number => exact covered_integer number
  | string items => exact covered_string items
  | emptyArray inner | emptyObject inner =>
      exact covered_between (by decide) (by decide) (covered_spaces inner)
  | array elements => exact covered_between (by decide) (by decide) (covered_elements elements)
  | object members => exact covered_between (by decide) (by decide) (covered_members members)

theorem covered_elements (elements : Elements) : CoveredString elements.text := by
  cases elements with
  | last before element after =>
      simp only [Elements.text, coveredString_append]
      exact ⟨⟨covered_spaces before, covered_tree element⟩, covered_spaces after⟩
  | more before element after rest =>
      simp only [Elements.text, coveredString_append, coveredString_cons]
      exact ⟨⟨⟨covered_spaces before, covered_tree element⟩, covered_spaces after⟩,
        covered_char (by decide), covered_elements rest⟩

theorem covered_members (members : Members) : CoveredString members.text := by
  have colon : Covered ':'.toUInt8 := covered_char (by decide)
  cases members with
  | last before name afterName beforeValue value after =>
      simp only [Members.text, coveredString_append, coveredString_cons]
      exact ⟨⟨⟨⟨⟨covered_spaces before, covered_string name⟩, covered_spaces afterName⟩, colon,
        covered_spaces beforeValue⟩, covered_tree value⟩, covered_spaces after⟩
  | more before name afterName beforeValue value after rest =>
      simp only [Members.text, coveredString_append, coveredString_cons]
      exact ⟨⟨⟨⟨⟨⟨covered_spaces before, covered_string name⟩, covered_spaces afterName⟩, colon,
        covered_spaces beforeValue⟩, covered_tree value⟩, covered_spaces after⟩,
        covered_char (by decide), covered_members rest⟩

end

theorem elementsText_false {elements : List Written} (some : elements ≠ []) :
    elementsText false elements = ','.toUInt8 :: elementsText true elements := by
  cases elements with
  | nil => exact absurd rfl some
  | cons element others =>
      simp only [elementsText, comma, if_true, Bool.false_eq_true, if_false, List.nil_append,
        List.cons_append]

theorem membersText_false {members : List (CString × Written)} (some : members ≠ []) :
    membersText false members = ','.toUInt8 :: membersText true members := by
  cases members with
  | nil => exact absurd rfl some
  | cons member others =>
      simp only [membersText, comma, if_true, Bool.false_eq_true, if_false, List.nil_append,
        List.append_assoc, List.cons_append]

mutual

theorem written_tree (w : Written) (isUtf8 : w.All Utf8) (covered : w.All CoveredString) :
    ∃ tree : Tree, tree.text = w.text ∧ tree.valueBy utf8 = w.value := by
  cases w with
  | null => exact ⟨.null, rfl, rfl⟩
  | bool value => cases value <;> exact ⟨.bool _, rfl, rfl⟩
  | int value =>
      rcases printInteger_spec value with ⟨number, isText, isValue⟩
      exact ⟨.int number, isText, congrArg Value.int isValue⟩
  | string bytes =>
      rcases quoted_isString isUtf8 covered with ⟨items, isText, isValue⟩
      exact ⟨.string items, isText, congrArg Value.string isValue⟩
  | array elements =>
      by_cases empty : elements = []
      · subst empty
        exact ⟨.emptyArray [], rfl, rfl⟩
      · rcases written_elements elements isUtf8 covered empty with ⟨es, isText, isValue⟩
        refine ⟨.array es, ?_, congrArg Value.array isValue⟩
        rw [Tree.text, isText, Written.text]
  | object members =>
      by_cases empty : members = []
      · subst empty
        exact ⟨.emptyObject [], rfl, rfl⟩
      · rcases written_members members isUtf8 covered empty with ⟨ms, isText, isValue⟩
        refine ⟨.object ms, ?_, ?_⟩
        · rw [Tree.text, isText, Written.text]
        · rw [Tree.valueBy, isValue, Written.value]

theorem written_elements (elements : List Written) (isUtf8 : ElementsAll Utf8 elements)
    (covered : ElementsAll CoveredString elements) (some : elements ≠ []) :
    ∃ es : Elements, es.text = elementsText true elements ∧
      es.valuesBy utf8 = elementsValues elements := by
  cases elements with
  | nil => exact absurd rfl some
  | cons element others =>
      rcases written_tree element isUtf8.1 covered.1 with ⟨tree, isText, isValue⟩
      by_cases empty : others = []
      · subst empty
        refine ⟨.last [] tree [], ?_, ?_⟩
        · simp only [Elements.text, isText, elementsText, comma, if_true]
          rfl
        · rw [Elements.valuesBy, isValue, elementsValues]
          rfl
      · rcases written_elements others isUtf8.2 covered.2 empty with ⟨es, isRest, isValues⟩
        refine ⟨.more [] tree [] es, ?_, ?_⟩
        · simp only [Elements.text, isText, isRest, elementsText, comma, if_true,
            elementsText_false empty, spaces, List.map_nil, List.append_nil]
        · rw [Elements.valuesBy, isValue, isValues, elementsValues]

theorem written_members (members : List (CString × Written)) (isUtf8 : MembersAll Utf8 members)
    (covered : MembersAll CoveredString members) (some : members ≠ []) :
    ∃ ms : Members, ms.text = membersText true members ∧
      ms.valuesBy utf8 = membersValues members := by
  cases members with
  | nil => exact absurd rfl some
  | cons member others =>
      rcases member with ⟨key, value⟩
      rcases quoted_isString isUtf8.1 covered.1 with ⟨name, isName, isKey⟩
      rcases written_tree value isUtf8.2.1 covered.2.1 with ⟨tree, isText, isValue⟩
      by_cases empty : others = []
      · subst empty
        refine ⟨.last [] name [] [] tree [], ?_, ?_⟩
        · simp only [Members.text, isName, isText, membersText, comma, if_true, spaces,
            List.map_nil, List.nil_append, List.append_nil, List.append_assoc, List.cons_append]
        · rw [Members.valuesBy, isKey, isValue, membersValues]
          rfl
      · rcases written_members others isUtf8.2.2 covered.2.2 empty with ⟨ms, isRest, isValues⟩
        refine ⟨.more [] name [] [] tree [] ms, ?_, ?_⟩
        · simp only [Members.text, isName, isText, isRest, membersText, comma, if_true, spaces,
            membersText_false empty, List.map_nil, List.nil_append, List.append_nil,
            List.append_assoc, List.cons_append]
        · rw [Members.valuesBy, isKey, isValue, isValues, membersValues]

end

mutual

theorem all_of_text (w : Written) (covered : CoveredString w.text) : w.All CoveredString := by
  cases w with
  | null | bool value | int value => trivial
  | string bytes => exact covered_of_quoted covered
  | array elements =>
      rw [Written.text, List.cons_append, coveredString_cons, coveredString_append] at covered
      exact all_of_elements true elements covered.2.1
  | object members =>
      rw [Written.text, List.cons_append, coveredString_cons, coveredString_append] at covered
      exact all_of_members true members covered.2.1

theorem all_of_elements (first : Bool) (elements : List Written)
    (covered : CoveredString (elementsText first elements)) : ElementsAll CoveredString elements := by
  cases elements with
  | nil => trivial
  | cons element others =>
      rw [elementsText, coveredString_append, coveredString_append] at covered
      exact ⟨all_of_text element covered.1.2, all_of_elements false others covered.2⟩

theorem all_of_members (first : Bool) (members : List (CString × Written))
    (covered : CoveredString (membersText first members)) : MembersAll CoveredString members := by
  cases members with
  | nil => trivial
  | cons member others =>
      rcases member with ⟨key, value⟩
      simp only [membersText, coveredString_append, coveredString_cons] at covered
      exact ⟨covered_of_quoted covered.1.1.2, all_of_text value covered.1.2.2,
        all_of_members false others covered.2⟩

end

theorem nulFree_append {first second : CString} :
    NulFree (first ++ second) ↔ NulFree first ∧ NulFree second := by
  simp [NulFree]

theorem CoveredString.nulFree {bytes : CString} (covered : CoveredString bytes) : NulFree bytes := by
  have notZero : ¬ Covered 0 := by
    rw [Covered]
    decide
  exact fun isMem => notZero (covered 0 isMem)

theorem nulFree_quoted {bytes : CString} (nulFree : NulFree bytes) : NulFree (quoted bytes) := by
  have eachFree : ∀ b : UInt8, b ≠ 0 → NulFree (escaped b) := by
    intro b notZero
    unfold escaped NulFree
    repeat' split
    · decide
    · decide
    · decide
    · decide
    · decide
    · rw [List.mem_singleton]
      exact notZero.symm
  have isFlat : NulFree (bytes.flatMap escaped) := by
    rw [NulFree, List.mem_flatMap]
    rintro ⟨b, isMem, isZero⟩
    have notZero : b ≠ 0 := by
      rintro rfl
      exact nulFree isMem
    exact eachFree b notZero isZero
  have isQuote : NulFree ['"'.toUInt8] := by
    rw [NulFree]
    decide
  rw [quoted, ← List.singleton_append, nulFree_append, nulFree_append]
  exact ⟨⟨isQuote, isFlat⟩, isQuote⟩

theorem nulFree_comma (first : Bool) : NulFree (comma first) := by
  cases first <;> (rw [NulFree]; decide)

mutual

theorem nulFree_text (w : Written) (nulFree : w.All NulFree) : NulFree w.text := by
  cases w with
  | null =>
      rw [NulFree]
      decide
  | bool value => cases value <;> (rw [NulFree]; decide)
  | int value =>
      obtain ⟨number, isText, -⟩ := printInteger_spec value
      rw [Written.text, ← isText]
      exact (covered_integer number).nulFree
  | string bytes => exact nulFree_quoted nulFree
  | array elements =>
      have areFree := nulFree_elements true elements nulFree
      have opens : NulFree ['['.toUInt8] := by
        rw [NulFree]
        decide
      have closes : NulFree [']'.toUInt8] := by
        rw [NulFree]
        decide
      rw [Written.text, ← List.singleton_append, nulFree_append, nulFree_append]
      exact ⟨⟨opens, areFree⟩, closes⟩
  | object members =>
      have areFree := nulFree_members true members nulFree
      have opens : NulFree ['{'.toUInt8] := by
        rw [NulFree]
        decide
      have closes : NulFree ['}'.toUInt8] := by
        rw [NulFree]
        decide
      rw [Written.text, ← List.singleton_append, nulFree_append, nulFree_append]
      exact ⟨⟨opens, areFree⟩, closes⟩

theorem nulFree_elements (first : Bool) (elements : List Written)
    (nulFree : ElementsAll NulFree elements) : NulFree (elementsText first elements) := by
  cases elements with
  | nil => exact List.not_mem_nil
  | cons element others =>
      rw [elementsText, nulFree_append, nulFree_append]
      exact ⟨⟨nulFree_comma first, nulFree_text element nulFree.1⟩,
        nulFree_elements false others nulFree.2⟩

theorem nulFree_members (first : Bool) (members : List (CString × Written))
    (nulFree : MembersAll NulFree members) : NulFree (membersText first members) := by
  cases members with
  | nil => exact List.not_mem_nil
  | cons member others =>
      obtain ⟨key, value⟩ := member
      have isColon : NulFree [':'.toUInt8] := by
        rw [NulFree]
        decide
      rw [membersText, ← List.singleton_append, nulFree_append, nulFree_append, nulFree_append,
        nulFree_append]
      exact ⟨⟨⟨nulFree_comma first, nulFree_quoted nulFree.1⟩, isColon, nulFree_text value nulFree.2.1⟩,
        nulFree_members false others nulFree.2.2⟩

end

theorem quoted_isString_iff {bytes : CString} (isUtf8 : Utf8 bytes) :
    (∃ items, quoted bytes = stringBytes items ∧ utf8 items = bytes) ↔ CoveredString bytes := by
  constructor
  · rintro ⟨items, isText, -⟩
    apply covered_of_quoted
    rw [isText]
    exact covered_string items
  · intro covered
    rcases quoted_isString isUtf8 covered with ⟨items, isText, isValue⟩
    exact ⟨items, isText.symm, isValue⟩

theorem document_covered (document : Document) : CoveredString document.text := by
  rw [Document.text, coveredString_append, coveredString_append]
  exact ⟨⟨covered_spaces _, covered_tree _⟩, covered_spaces _⟩

/-- What the writers write is JSON for the value exactly if no string and no key has a control
character other than tabs and ends of lines. -/
theorem written_isJson_iff (printFloat : UInt64 → CString) :
    (∀ v, Built Utf8 v → ∃ text value,
      Eventually (fun fuel => jsonStringify printFloat fuel v) text ∧ Means v value ∧
      ((∃ document : Document, document.text = text ∧ document.value = value) ↔
        Built CoveredString v)) ∧
    (∀ s, Utf8 s → ((∃ items, tinoxJsonEncodeString (some s) = stringBytes items ∧
      utf8 items = s) ↔ CoveredString s)) ∧
    (∀ b key s, Utf8 s → ∃ written,
      (jsonBuilderAddString b key (some s)).buf = (jbKey b key).buf ++ written ∧
      ((∃ items, written = stringBytes items ∧ utf8 items = s) ↔ CoveredString s)) := by
  refine ⟨fun v built => ?_, fun s isUtf8 => ?_, fun b key s isUtf8 => ?_⟩
  · rcases built.writes printFloat with ⟨w, writes⟩
    refine ⟨w.text, w.value, writes.text [], writes.means, ?_⟩
    rw [← writes.all]
    constructor
    · rintro ⟨document, isText, -⟩
      apply all_of_text
      rw [← isText]
      exact document_covered document
    · intro covered
      rcases written_tree w ((writes.all Utf8).mpr built) covered with ⟨tree, isText, isValue⟩
      refine ⟨⟨[], tree, []⟩, ?_, isValue⟩
      rw [Document.text, isText]
      exact List.append_nil _
  · rw [tinoxJsonEncodeString_eq]
    exact quoted_isString_iff isUtf8
  · exact ⟨quoted s, jsonBuilderAddString_eq b key s, quoted_isString_iff isUtf8⟩

theorem written_isJson_tab (printFloat : UInt64 → CString) : ∃ text value,
    Eventually (fun fuel => jsonStringify printFloat fuel tabArray) text ∧ Means tabArray value ∧
    ∃ document : Document, document.text = text ∧ document.value = value := by
  have isUtf8 : Utf8 [97, 9] := ⟨['a', '\t'], by decide, by decide⟩
  have covered : CoveredString [97, 9] := by
    intro b member
    rcases List.mem_cons.mp member with rfl | member
    · exact Or.inl (by decide)
    · rw [List.mem_singleton.mp member]
      exact Or.inr (Or.inl rfl)
  rcases (written_isJson_iff printFloat).1 tabArray (built_tabArray isUtf8) with
    ⟨text, value, written, means, iff⟩
  exact ⟨text, value, written, means, iff.mpr (built_tabArray covered)⟩

/-- The control character U+0001 is written as it is by all three writers. -/
theorem written_not_isJson : Utf8 [1] ∧
    (∃ text, Eventually (fun fuel => jsonStringify (fun _ => []) fuel (.string [1])) text ∧
      ¬ ∃ document : Document, document.text = text) ∧
    (¬ ∃ items, tinoxJsonEncodeString (some [1]) = stringBytes items) ∧
    ¬ ∃ items, (jsonBuilderAddString jsonBuilderCreate [107] (some [1])).buf =
      (jbKey jsonBuilderCreate [107]).buf ++ stringBytes items := by
  have notCovered : ¬ CoveredString [1] := by
    intro covered
    rcases covered 1 (List.mem_singleton_self 1) with large | same | same | same
    · exact absurd large (by decide)
    all_goals exact absurd same (by decide)
  have notString : ¬ ∃ items, quoted [1] = stringBytes items := by
    rintro ⟨items, isText⟩
    apply notCovered
    apply covered_of_quoted
    rw [isText]
    exact covered_string items
  refine ⟨⟨[Char.ofNat 1], by decide, by decide⟩, ⟨quoted [1], ?_, ?_⟩, ?_, ?_⟩
  · exact Eventually.step (fun fuel => congrArg some (jsonAppendStr_eq [] [1])) (Eventually.now _)
  · rintro ⟨document, isText⟩
    apply notCovered
    apply covered_of_quoted
    rw [← isText]
    exact document_covered document
  · rw [tinoxJsonEncodeString_eq]
    exact notString
  · rintro ⟨items, isText⟩
    rw [jsonBuilderAddString_eq] at isText
    exact notString ⟨items, List.append_cancel_left isText⟩

end Tinox.Runtime
