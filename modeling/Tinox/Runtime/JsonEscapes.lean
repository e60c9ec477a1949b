import Mathlib.Data.List.Perm.Subperm
import Tinox.Runtime.JsonReads

/-!
# Escapes that the JSON reader does not know

`\b`, `\f` and the code units are copied without their backslash.  A text without them is
read as what it denotes, and one in which every object has distinct names only then.
-/

namespace Tinox.Runtime

open JsonText

/-- A character that is not written with `\b`, `\f` or a code unit. -/
def Known : Item → Prop
  | .plain _ _ => True
  | .escape letter => letter ≠ .backspace ∧ letter ≠ .formFeed
  | .unit _ _ => False
  | .pair _ _ _ _ => False

/-- A string of known characters. -/
def KnownString (items : List Item) : Prop :=
  ∀ item ∈ items, Known item

theorem copied_known {item : Item} (known : Known item) :
    copied item = String.utf8EncodeChar item.char := by
  cases item with
  | plain char isPlain => rfl
  | escape letter =>
      cases letter with
      | backspace => exact absurd rfl known.1
      | formFeed => exact absurd rfl known.2
      | _ => rfl
  | unit code isChar | pair high low isHigh isLow => exact known.elim

theorem copiedString_known {items : List Item} (known : KnownString items) :
    copiedString items = utf8 items := by
  induction items with
  | nil => rfl
  | cons item items ih =>
      rw [copiedString, List.flatMap_cons, copied_known (known item List.mem_cons_self)]
      exact congrArg _ (ih fun other member => known other (List.mem_cons_of_mem item member))

/-- Bytes count twice, except for those of `\b` and `\f`. -/
def weight (bytes : Bytes) : Nat :=
  (bytes.map fun b => if b = 0x08 ∨ b = 0x0C then 1 else 2).sum

theorem weight_append (first second : Bytes) : weight (first ++ second) = weight first + weight second := by
  rw [weight, List.map_append, List.sum_append]
  rfl

theorem weight_le (bytes : Bytes) : weight bytes ≤ 2 * bytes.length := by
  induction bytes with
  | nil => exact Nat.le_refl 0
  | cons b bytes ih =>
      rw [weight, List.map_cons, List.sum_cons, List.length_cons]
      rw [weight] at ih
      split <;> omega

theorem weight_code (code : HexCode) : weight code.bytes = 8 := by
  have isTwo : ∀ digit : HexDigit, (if digit.byte = 0x08 ∨ digit.byte = 0x0C then 1 else 2) = 2 :=
    fun digit => if_neg fun either => either.elim (HexDigit.byte_ne digit).2.2.1
      (HexDigit.byte_ne digit).2.2.2
  simp only [weight, HexCode.bytes, List.map_cons, List.map_nil, List.sum_cons, List.sum_nil, isTwo]
  rfl

theorem weight_copied (item : Item) :
    weight (String.utf8EncodeChar item.char) ≤ weight (copied item) ∧
      (weight (String.utf8EncodeChar item.char) = weight (copied item) → Known item) := by
  have light : ∀ char, weight (String.utf8EncodeChar char) ≤ 8 := by
    intro char
    apply Nat.le_trans (weight_le _)
    rw [String.length_utf8EncodeChar]
    exact Nat.mul_le_mul_left 2 (Char.utf8Size_le_four char)
  cases item with
  | plain char isPlain => exact ⟨Nat.le_refl _, fun _ => trivial⟩
  | escape letter =>
      have isKnown : ∀ letter : Escape,
          weight (String.utf8EncodeChar letter.char) ≤ weight [unescape letter.letter.toUInt8] ∧
          (weight (String.utf8EncodeChar letter.char) = weight [unescape letter.letter.toUInt8] →
            letter ≠ .backspace ∧ letter ≠ .formFeed) := by
        intro letter
        cases letter <;> decide
      exact isKnown letter
  | unit code isChar =>
      have heavy : weight (copied (.unit code isChar)) = 10 :=
        congrArg (2 + ·) (weight_code code)
      have small := light (Item.unit code isChar).char
      exact ⟨by omega, fun same => by omega⟩
  | pair high low isHigh isLow =>
      have heavy : weight (copied (.pair high low isHigh isLow)) = 20 := by
        have first := weight_code high
        have second := weight_code low
        rw [copied, weight_append]
        have grow : ∀ code : HexCode, weight ('u'.toUInt8 :: code.bytes) = 10 :=
          fun code => congrArg (2 + ·) (weight_code code)
        rw [grow, grow]
      have small := light (Item.pair high low isHigh isLow).char
      exact ⟨by omega, fun same => by omega⟩

theorem weight_flatMap {α : Type} (f : α → Bytes) (list : List α) :
    weight (list.flatMap f) = (list.map fun x => weight (f x)).sum := by
  induction list with
  | nil => rfl
  | cons x list ih => rw [List.flatMap_cons, weight_append, ih, List.map_cons, List.sum_cons]

/-- Sums of two measures agree only if the measures agree everywhere. -/
theorem sum_eq_each {α : Type} {small large : α → Nat} {P : α → Prop}
    (each : ∀ x, small x ≤ large x ∧ (small x = large x → P x)) (list : List α) :
    (list.map small).sum ≤ (list.map large).sum ∧
      ((list.map small).sum = (list.map large).sum → ∀ x ∈ list, P x) := by
  induction list with
  | nil => exact ⟨Nat.le_refl 0, fun _ x member => by cases member⟩
  | cons first list ih =>
      simp only [List.map_cons, List.sum_cons]
      have here := (each first).1
      refine ⟨Nat.add_le_add here ih.1, fun same x member => ?_⟩
      rcases List.mem_cons.mp member with rfl | member
      · exact (each x).2 (by omega)
      · exact ih.2 (by omega) x member

theorem weight_string (items : List Item) : weight (utf8 items) ≤ weight (copiedString items) ∧
    (weight (utf8 items) = weight (copiedString items) → KnownString items) := by
  rw [utf8, copiedString, weight_flatMap, weight_flatMap]
  exact sum_eq_each weight_copied items

/-- The names of an object, as they are written. -/
def names : Members → List (List Item)
  | .last _ name _ _ _ _ => [name]
  | .more _ name _ _ _ _ rest => name :: names rest

mutual

/-- All strings and names of a tree are known. -/
def KnownTree : Tree → Prop
  | .null => True
  | .bool _ => True
  | .int _ => True
  | .string items => KnownString items
  | .emptyArray _ => True
  | .array elements => KnownElements elements
  | .emptyObject _ => True
  | .object members => KnownMembers members

def KnownElements : Elements → Prop
  | .last _ element _ => KnownTree element
  | .more _ element _ rest => KnownTree element ∧ KnownElements rest

def KnownMembers : Members → Prop
  | .last _ name _ _ value _ => KnownString name ∧ KnownTree value
  | .more _ name _ _ value _ rest => KnownString name ∧ KnownTree value ∧ KnownMembers rest

end

mutual

/-- The names of every object denote different strings. -/
def DistinctTree : Tree → Prop
  | .null => True
  | .bool _ => True
  | .int _ => True
  | .string _ => True
  | .emptyArray _ => True
  | .array elements => DistinctElements elements
  | .emptyObject _ => True
  | .object members => ((names members).map utf8).Nodup ∧ DistinctMembers members

def DistinctElements : Elements → Prop
  | .last _ element _ => DistinctTree element
  | .more _ element _ rest => DistinctTree element ∧ DistinctElements rest

def DistinctMembers : Members → Prop
  | .last _ _ _ _ value _ => DistinctTree value
  | .more _ _ _ _ value _ rest => DistinctTree value ∧ DistinctMembers rest

end

mutual

theorem value_known (tree : Tree) (known : KnownTree tree) :
    tree.valueBy copiedString = tree.valueBy utf8 := by
  cases tree with
  | null | bool value | int number | emptyArray inner | emptyObject inner => rfl
  | string items => exact congrArg Value.string (copiedString_known known)
  | array elements => exact congrArg Value.array (elements_known elements known)
  | object members =>
      exact congrArg (fun entries => Value.object (lastValue entries)) (members_known members known)

theorem elements_known (elements : Elements) (known : KnownElements elements) :
    elements.valuesBy copiedString = elements.valuesBy utf8 := by
  cases elements with
  | last before element after => exact congrArg (fun value => [value]) (value_known element known)
  | more before element after rest =>
      exact congrArg₂ List.cons (value_known element known.1) (elements_known rest known.2)

theorem members_known (members : Members) (known : KnownMembers members) :
    members.valuesBy copiedString = members.valuesBy utf8 := by
  cases members with
  | last before name afterName beforeValue value after =>
      rw [Members.valuesBy, Members.valuesBy, copiedString_known known.1, value_known value known.2]
  | more before name afterName beforeValue value after rest =>
      rw [Members.valuesBy, Members.valuesBy, copiedString_known known.1,
        value_known value known.2.1, members_known rest known.2.2]

end

theorem valuesBy_names (meaning : List Item → Bytes) (members : Members) :
    (members.valuesBy meaning).map Prod.fst = (names members).map meaning := by
  cases members with
  | last before name afterName beforeValue value after => rfl
  | more before name afterName beforeValue value after rest =>
      rw [Members.valuesBy, names, List.map_cons, List.map_cons, valuesBy_names meaning rest]

theorem names_known {members : Members} (distinct : ((names members).map utf8).Nodup)
    (same : lastValue (members.valuesBy copiedString) = lastValue (members.valuesBy utf8)) :
    ∀ name ∈ names members, KnownString name := by
  have subset : (names members).map utf8 ⊆ (names members).map copiedString := by
    intro name member
    rw [← valuesBy_names] at member ⊢
    rw [← lastValue_isSome] at member ⊢
    rw [same]
    exact member
  have perm := (List.subperm_of_subset distinct subset).perm_of_length_le
    (by rw [List.length_map, List.length_map])
  have sums := (perm.map weight).sum_nat
  rw [List.map_map, List.map_map] at sums
  exact (sum_eq_each weight_string (names members)).2 sums

theorem entries_eq {entries others : List (Bytes × Value)}
    (sameNames : entries.map Prod.fst = others.map Prod.fst) (distinct : (others.map Prod.fst).Nodup)
    (same : lastValue entries = lastValue others) : entries = others := by
  have sameLength : entries.length = others.length := by
    rw [← List.length_map Prod.fst, sameNames, List.length_map]
  apply List.ext_getElem sameLength
  intro i inside otherInside
  have sameName : entries[i].1 = others[i].1 := by
    have here := congrArg (fun list => list[i]?) sameNames
    simp only [List.getElem?_map, List.getElem?_eq_getElem inside,
      List.getElem?_eq_getElem otherInside, Option.map_some, Option.some.injEq] at here
    exact here
  have value : lastValue entries entries[i].1 = some entries[i].2 :=
    lastValue_of_mem (sameNames ▸ distinct) (List.getElem_mem inside)
  have otherValue : lastValue others others[i].1 = some others[i].2 :=
    lastValue_of_mem distinct (List.getElem_mem otherInside)
  rw [same, sameName, otherValue] at value
  exact Prod.ext sameName (Option.some.inj value).symm

mutual

theorem known_of_value (tree : Tree) (distinct : DistinctTree tree)
    (same : tree.valueBy copiedString = tree.valueBy utf8) : KnownTree tree := by
  cases tree with
  | null | bool value | int number | emptyArray inner | emptyObject inner => trivial
  | string items =>
      injection same with same
      exact (weight_string items).2 (congrArg weight same.symm)
  | array elements =>
      injection same with same
      exact known_of_elements elements distinct same
  | object members =>
      injection same with same
      have known := names_known distinct.1 same
      have sameNames : (members.valuesBy copiedString).map Prod.fst =
          (members.valuesBy utf8).map Prod.fst := by
        rw [valuesBy_names, valuesBy_names]
        exact List.map_congr_left fun name member => copiedString_known (known name member)
      have distinctNames : ((members.valuesBy utf8).map Prod.fst).Nodup := by
        rw [valuesBy_names]
        exact distinct.1
      exact known_of_members members distinct.2 known (entries_eq sameNames distinctNames same)

theorem known_of_elements (elements : Elements) (distinct : DistinctElements elements)
    (same : elements.valuesBy copiedString = elements.valuesBy utf8) : KnownElements elements := by
  cases elements with
  | last before element after =>
      injection same with sameValue
      exact known_of_value element distinct sameValue
  | more before element after rest =>
      injection same with sameValue sameRest
      exact ⟨known_of_value element distinct.1 sameValue,
        known_of_elements rest distinct.2 sameRest⟩

theorem known_of_members (members : Members) (distinct : DistinctMembers members)
    (known : ∀ name ∈ names members, KnownString name)
    (same : members.valuesBy copiedString = members.valuesBy utf8) : KnownMembers members := by
  cases members with
  | last before name afterName beforeValue value after =>
      injection same with sameEntry
      exact ⟨known name List.mem_cons_self,
        known_of_value value distinct (congrArg Prod.snd sameEntry)⟩
  | more before name afterName beforeValue value after rest =>
      injection same with sameEntry sameRest
      exact ⟨known name List.mem_cons_self,
        known_of_value value distinct.1 (congrArg Prod.snd sameEntry),
        known_of_members rest distinct.2
          (fun other member => known other (List.mem_cons_of_mem name member)) sameRest⟩

end

/-- A text without `\b`, `\f` and code units is read as the value that it denotes, and one
whose objects have distinct names in no other case. -/
theorem jsonParse_denoted (atof : CString → UInt64) (document : Document) :
    (KnownTree document.tree → ReadsAs atof document.text document.value) ∧
    (DistinctTree document.tree →
      (ReadsAs atof document.text document.value ↔ KnownTree document.tree)) := by
  have reads := jsonParse_reads atof document
  have forward : KnownTree document.tree → ReadsAs atof document.text document.value := by
    intro known
    rw [Document.value, ← value_known document.tree known]
    exact reads
  refine ⟨forward, fun distinct => ⟨fun denoted => ?_, forward⟩⟩
  exact known_of_value document.tree distinct (reads.unique denoted)

/-- The text `{"a" : ["\n", -1]}`. -/
def nestedDocument : Document where
  before := []
  tree := .object (.last [] [.plain 'a' (by decide)] [.space] [.space]
    (.array (.more [] (.string [.escape .newline]) []
      (.last [.space] (.int ⟨true, 1, [], by decide, by decide⟩) []))) [])
  after := []

theorem jsonParse_denoted_nested : ReadsAs (fun _ => 0) nestedDocument.text nestedDocument.value := by
  apply (jsonParse_denoted (fun _ => 0) nestedDocument).1
  have plain : KnownString [.plain 'a' (by decide)] := by
    intro item member
    rw [List.mem_singleton.mp member]
    trivial
  have newline : KnownString [.escape .newline] := by
    intro item member
    rw [List.mem_singleton.mp member]
    exact ⟨nofun, nofun⟩
  exact ⟨plain, newline, trivial⟩

/-- The text `"\b"` is read as the string `b`. -/
theorem jsonParse_not_denoted : ¬ ∀ (atof : CString → UInt64) (document : Document),
    ReadsAs atof document.text document.value := by
  intro always
  have denoted := always (fun _ => 0) ⟨[], .string [.escape .backspace], []⟩
  have same := (jsonParse_reads _ _).unique denoted
  injection same with same
  exact absurd same (by decide)

end Tinox.Runtime
