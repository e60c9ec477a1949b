import Tinox.Amqp.RoundTrip10
import Tinox.Amqp.Shapes10
import Tinox.Amqp.TableBounds

/-!
# How much a value of AMQP 1.0 can hold

A value takes at least the byte of its code, unless it is an element of an array: then it may take
no byte at all, and as many of them are read as the array declares.
-/

namespace Tinox.Amqp

open Tinox.Net Tinox.Runtime

mutual

/-- The nodes of a value. -/
def nodes : Amqp10Value → Nat
  | .listVal items => 1 + nodesIn items
  | .mapVal pairs => 1 + nodesIn pairs
  | .describedVal _ value => 1 + nodes value
  | _ => 1

def nodesIn : List Amqp10Value → Nat
  | [] => 0
  | item :: items => nodes item + nodesIn items

end

mutual

/-- The bytes of the strings and binaries of a value. -/
def text : Amqp10Value → Nat
  | .uuidVal bytes => bytes.length
  | .binaryVal bytes => bytes.length
  | .strVal s => s.length
  | .symbolVal s => s.length
  | .listVal items => textIn items
  | .mapVal pairs => textIn pairs
  | .describedVal _ value => text value
  | _ => 0

def textIn : List Amqp10Value → Nat
  | [] => 0
  | item :: items => text item + textIn items

end

variable {count : Nat} {element : Int64}

namespace Amqp10Reader

open Amqp10Writer

/-- What is known of the shape of a value. -/
inductive Takes (code : Int64) (r : Reader) : Shape → Prop
  | flat {v : Amqp10Value} {count : Nat} (isFlat : nodes v = 1)
      (isShort : text v + left (advance count r) ≤ left r)
      (isFilled : ¬ r.truncated → code ∈ filledCodes → 0 < count) :
      Takes code r (.flat v (advance count r))
  | items {make : List Amqp10Value → Amqp10Value} {count own : Nat}
      (isNodes : ∀ items, nodes (make items) = 1 + nodesIn items)
      (isText : ∀ items, text (make items) = textIn items) (goesOn : ¬ r.truncated) (header : 2 ≤ own) :
      Takes code r (.items make count (advance own r))
  | elements {element : Int64} {count own : Nat} (goesOn : ¬ r.truncated)
      (isArray : code = 0xe0 ∧ own = 3 ∨ code = 0xf0 ∧ own = 9) :
      Takes code r (.elements element count (advance own r))
  | described (goesOn : ¬ r.truncated) : Takes code r (.described r)

section Takes

variable {code : Int64} {r : Reader}

variable {v : Amqp10Value} {width : Nat}

/-- A value without bytes behind its code, or one that is not read any more. -/
theorem takes_empty (isFlat : nodes v = 1) (noText : text v = 0)
    (isEmpty : r.truncated = true ∨ code ∉ filledCodes) : Takes code r (.flat v r) := by
  refine @Takes.flat code r v 0 isFlat (by rw [noText, Nat.zero_add]; exact Nat.le_refl _) ?_
  intro goesOn isFilled
  exact absurd isFilled (isEmpty.resolve_left goesOn)

theorem takes_number {rest : Reader} (isRest : rest = advance (width + 1) r) (isFlat : nodes v = 1)
    (noText : text v = 0) : Takes code r (.flat v rest) := by
  subst isRest
  have isLeft := left_advance (width + 1) r
  exact .flat isFlat (by omega) fun _ _ => Nat.succ_pos width

theorem takes_bytes {n : Int64 × Reader} (isLength : n.2 = advance (width + 1) r) {rest : Reader}
    {data : List Int64} (isRead : readBytesLoop n.1.toInt.toNat n.2 = (data, rest))
    (isFlat : nodes v = 1) (isText : text v ≤ data.length) : Takes code r (.flat v rest) := by
  rcases readBytesLoop_bound n.1.toInt.toNat n.2 with ⟨count, isRest, isShort, _⟩
  have isLeft := left_advance (width + 1) r
  rw [isRead, isLength] at isShort
  rw [isRead, isLength, ← advance_add] at isRest
  dsimp only at isRest isShort
  subst isRest
  exact .flat isFlat (by omega) fun _ _ => by omega

theorem takes_text {n : Int64 × Reader} (isLength : n.2 = advance (width + 1) r)
    {make : CString → Amqp10Value} (isFlat : ∀ s, nodes (make s) = 1)
    (isText : ∀ s, text (make s) = s.length) :
    Takes code r (.flat (make (readRawStr n.1 n.2).1) (readRawStr n.1 n.2).2) := by
  have isShort := length_cString_le ((readBytesLoop n.1.toInt.toNat n.2).1.map lowByte)
  rw [List.length_map] at isShort
  exact takes_bytes isLength rfl (isFlat _) (Nat.le_trans (Nat.le_of_eq (isText _)) isShort)

theorem takes_sixteen (isFlat : nodes v = 1) (isText : text v ≤ (readRawBytes 16 r).1.length) :
    Takes code r (.flat v (readRawBytes 16 r).2) := by
  rcases readBytesLoop_bound (16 : Int64).toInt.toNat r with ⟨count, isRest, isShort, positive⟩
  rw [readRawBytes] at isText ⊢
  rw [isRest] at isShort ⊢
  exact .flat isFlat (by omega) fun goesOn _ => positive (by decide) goesOn

theorem takes_ite {c : Prop} [Decidable c] {yes no : Shape} (isYes : c → Takes code r yes)
    (isNo : ¬ c → Takes code r no) : Takes code r (if c then yes else no) := by
  split
  · rename_i holds
    exact isYes holds
  · rename_i fails
    exact isNo fails

end Takes

theorem takes_shape (code : Int64) (r : Reader) : Takes code r (shape code r) := by
  have u8 : (readU8 r).2 = advance (0 + 1) r := rfl
  have u16 : (readU16 r).2 = advance (1 + 1) r := rfl
  have u32 : (readU32 r).2 = advance (3 + 1) r := readNumber_advance 4 0 r
  have u64 : (readU64 r).2 = advance (7 + 1) r := readNumber_advance 8 0 r
  have small : (readU8 (readU8 r).2).2 = advance 2 r := rfl
  have large : (readU32 (readU32 r).2).2 = advance 8 r := by
    rw [u32, advance_add 4 4 r]
    exact readNumber_advance 4 0 _
  have smallArray : (readU8 (readU8 (readU8 r).2).2).2 = advance 3 r := rfl
  have largeArray : (readU8 (readU32 (readU32 r).2).2).2 = advance 9 r := by
    rw [large, advance_add 8 1 r]
    rfl
  rw [shape]
  dsimp only
  refine takes_ite (fun truncated => takes_empty rfl rfl (.inl truncated)) fun goesOn => ?_
  iterate 3
    refine takes_ite (fun isCode => takes_empty rfl rfl (.inr (isCode ▸ by decide))) fun _ => ?_
  iterate 2
    refine takes_ite (fun _ => takes_number u8 rfl rfl) fun _ => ?_
  refine takes_ite (fun _ => takes_number u16 rfl rfl) fun _ => ?_
  refine takes_ite (fun _ => takes_number u32 rfl rfl) fun _ => ?_
  refine takes_ite (fun _ => takes_number u8 rfl rfl) fun _ => ?_
  refine takes_ite (fun isCode => takes_empty rfl rfl (.inr (isCode ▸ by decide))) fun _ => ?_
  refine takes_ite (fun _ => takes_number u64 rfl rfl) fun _ => ?_
  refine takes_ite (fun _ => takes_number u8 rfl rfl) fun _ => ?_
  refine takes_ite (fun isCode => takes_empty rfl rfl (.inr (isCode ▸ by decide))) fun _ => ?_
  refine takes_ite (fun _ => takes_number u8 rfl rfl) fun _ => ?_
  refine takes_ite (fun _ => takes_number u16 rfl rfl) fun _ => ?_
  refine takes_ite (fun _ => takes_number u32 rfl rfl) fun _ => ?_
  refine takes_ite (fun _ => takes_number u8 rfl rfl) fun _ => ?_
  refine takes_ite (fun _ => takes_number u64 rfl rfl) fun _ => ?_
  refine takes_ite (fun _ => takes_number u8 rfl rfl) fun _ => ?_
  refine takes_ite (fun _ => takes_number u32 rfl rfl) fun _ => ?_
  refine takes_ite (fun _ => takes_number u64 rfl rfl) fun _ => ?_
  refine takes_ite (fun _ => takes_sixteen rfl (Nat.le_refl _)) fun _ => ?_
  refine takes_ite (fun _ => takes_bytes u8 rfl rfl (Nat.le_refl _)) fun _ => ?_
  refine takes_ite (fun _ => takes_bytes u32 rfl rfl (Nat.le_refl _)) fun _ => ?_
  iterate 2
    refine takes_ite (fun _ => takes_text u8 (fun _ => rfl) (fun _ => rfl)) fun _ => ?_
    refine takes_ite (fun _ => takes_text u32 (fun _ => rfl) (fun _ => rfl)) fun _ => ?_
  refine takes_ite (fun isCode => takes_empty rfl rfl (.inr (isCode ▸ by decide))) fun _ => ?_
  iterate 2
    refine takes_ite (fun _ => small ▸ .items (fun _ => rfl) (fun _ => rfl) goesOn (by decide)) fun _ => ?_
    refine takes_ite (fun _ => large ▸ .items (fun _ => rfl) (fun _ => rfl) goesOn (by decide)) fun _ => ?_
  refine takes_ite (fun isCode => smallArray ▸ .elements goesOn (.inl ⟨isCode, rfl⟩)) fun _ => ?_
  refine takes_ite (fun isCode => largeArray ▸ .elements goesOn (.inr ⟨isCode, rfl⟩)) fun _ => ?_
  refine takes_ite (fun _ => .described goesOn) fun _ => ?_
  refine takes_ite (fun _ => takes_number u32 rfl rfl) fun _ => ?_
  refine takes_ite (fun _ => takes_number u64 rfl rfl) fun _ => ?_
  refine takes_ite (fun _ => takes_number u32 rfl rfl) fun _ => ?_
  refine takes_ite (fun _ => takes_number u64 rfl rfl) fun _ => ?_
  refine takes_ite (fun _ => takes_sixteen rfl (Nat.zero_le _)) fun _ => ?_
  exact takes_empty rfl rfl (.inr (by simp [filledCodes, *]))

/-- The bytes of an array in front of its elements; an array that is an element has no code of its
own. -/
def headerBytes (isElement : Bool) (code : Int64) : Nat :=
  (if code = 0xe0 then 3 else 9) + if isElement then 0 else 1

/-- An array whose elements take no bytes has, with its elements, no more nodes than its header has
bytes. -/
def Modest (isElement : Bool) (code : Int64) (r : Reader) : Prop :=
  match shape code r with
  | .elements element count _ => element ∉ filledCodes → 1 + count ≤ headerBytes isElement code
  | _ => True

/-- The nodes that a value may have more than the cursor loses: the one whose code has been read
before, or that takes no byte. -/
def slack (isElement : Bool) (code : Int64) (r : Reader) : Nat :=
  if isElement = true ∧ code ∈ filledCodes ∧ ¬ r.truncated then 0 else 1

variable {r : Reader} {code : Int64}

theorem slack_le (isElement : Bool) (code : Int64) (r : Reader) : slack isElement code r ≤ 1 := by
  rw [slack]
  split <;> omega

/-- A value behind its code is read; what the cursor loses pays for its strings, and for its nodes
if the arrays are modest. -/
def CodeRead (fuel : Nat) (isElement : Bool) (code : Int64) (r : Reader) : Prop :=
  ∃ v count, readValueOfCode fuel code r = some (v, advance count r) ∧
    text v + left (advance count r) ≤ left r ∧
    (Throughout Modest fuel isElement code r →
      nodes v + left (advance count r) ≤ left r + slack isElement code r)

/-- A value with its code. -/
def ValueRead (fuel : Nat) (r : Reader) : Prop :=
  ∃ v count, readValue fuel r = some (v, advance count r) ∧
    text v + left (advance count r) ≤ left r ∧
    (Throughout Modest fuel false (readU8 r).1 (readU8 r).2 →
      nodes v + left (advance count r) ≤ max 1 (left r))

theorem valueRead_of_code {fuel : Nat} (isRead : CodeRead fuel false (readU8 r).1 (readU8 r).2) :
    ValueRead fuel r := by
  rcases isRead with ⟨v, count, isRead, isShort, fewNodes⟩
  have isLeft : left (readU8 r).2 = left r - 1 := left_readByte r
  have few := slack_le false (readU8 r).1 (readU8 r).2
  have isRest : advance count (readU8 r).2 = advance (count + 1) r := rfl
  rw [isRest] at isRead isShort fewNodes
  refine ⟨v, count + 1, isRead, by omega, ?_⟩
  intro modest
  have isFew := fewNodes modest
  omega

theorem nodes_pos (v : Amqp10Value) : 0 < nodes v := by
  cases v <;> simp [nodes]

theorem readItems_bound {readItem : Reader → Option (Amqp10Value × Reader)} {p : Reader → Prop}
    {limit more : Nat}
    (each : ∀ r, ¬ r.truncated → left r ≤ limit → ∃ v count, readItem r = some (v, advance count r) ∧
      text v + left (advance count r) ≤ left r ∧
      (p r → nodes v + left (advance count r) ≤ left r + more))
    (count : Nat) {r : Reader} (within : left r ≤ limit) :
    ∃ items own, readItems readItem count r = some (items, advance own r) ∧
      textIn items + left (advance own r) ≤ left r ∧
      (EachItem readItem p count r →
        nodesIn items + left (advance own r) ≤ left r + if r.truncated then 0 else more * count) := by
  induction count generalizing r with
  | zero =>
      refine ⟨[], 0, rfl, ?_, fun _ => ?_⟩
      · exact Nat.le_of_eq (Nat.zero_add _)
      · rw [nodesIn, advance]
        omega
  | succ count ih =>
      rw [readItems]
      split
      · refine ⟨[], 0, rfl, ?_, fun _ => ?_⟩
        · exact Nat.le_of_eq (Nat.zero_add _)
        · rw [nodesIn, advance]
          omega
      · rename_i goesOn
        rcases each r goesOn within with ⟨v, own, isItem, itemShort, itemNodes⟩
        have isLeft := left_advance own r
        rcases @ih (advance own r) (by omega) with ⟨items, rest, areItems, restShort, restNodes⟩
        rw [isItem, Option.bind_some, areItems, Option.map_some]
        rw [← advance_add] at restShort restNodes ⊢
        refine ⟨v :: items, own + rest, rfl, ?_, ?_⟩
        · rw [textIn]
          omega
        · intro holds
          rcases (holds.resolve_left goesOn) with ⟨isFirst, areRest⟩
          have fewFirst := itemNodes isFirst
          have fewRest := restNodes (areRest _ isItem)
          rw [nodesIn, Nat.mul_succ]
          split at fewRest <;> omega

section Step

variable {fuel : Nat} {isElement : Bool} {code : Int64} {r : Reader}

theorem codeRead_items {make : List Amqp10Value → Amqp10Value} {own : Nat}
    (isShape : shape code r = .items make count (advance own r))
    (isNodes : ∀ items, nodes (make items) = 1 + nodesIn items)
    (isText : ∀ items, text (make items) = textIn items) (goesOn : ¬ r.truncated) (header : 2 ≤ own)
    (values : ∀ r, ¬ r.truncated → left r ≤ fuel → ValueRead fuel r) (enough : left r < fuel + 1) :
    CodeRead (fuel + 1) isElement code r := by
  have isLeft := left_advance own r
  have positive := left_pos goesOn
  have each : ∀ r, ¬ r.truncated → left r ≤ fuel → ∃ v count,
      readValue fuel r = some (v, advance count r) ∧ text v + left (advance count r) ≤ left r ∧
      (Throughout Modest fuel false (readU8 r).1 (readU8 r).2 →
        nodes v + left (advance count r) ≤ left r + 0) := by
    intro r goesOn within
    rcases values r goesOn within with ⟨v, count, isRead, isShort, fewNodes⟩
    have positive := left_pos goesOn
    refine ⟨v, count, isRead, isShort, fun modest => ?_⟩
    have isFew := fewNodes modest
    omega
  rcases @readItems_bound _ _ fuel 0 each count (advance own r) (by omega) with
    ⟨items, rest, areItems, isShort, fewNodes⟩
  have isRead := readValueOfCode_succ fuel code r
  rw [isShape, readShape, areItems, Option.map_some] at isRead
  rw [← advance_add] at isRead isShort fewNodes
  refine ⟨make items, own + rest, isRead, ?_, ?_⟩
  · rw [isText]
    omega
  · intro modest
    rw [Throughout, isShape] at modest
    have isFew := fewNodes modest.2
    rw [isNodes]
    split at isFew <;> omega

/-- An array: the elements take bytes, or there are no more of them than the header allows. -/
theorem codeRead_elements {own : Nat}
    (isShape : shape code r = .elements element count (advance own r)) (goesOn : ¬ r.truncated)
    (isArray : code = 0xe0 ∧ own = 3 ∨ code = 0xf0 ∧ own = 9)
    (values : ∀ r, left r < fuel → CodeRead fuel true element r) (enough : left r < fuel + 1) :
    CodeRead (fuel + 1) isElement code r := by
  have isLeft := left_advance own r
  have positive := left_pos goesOn
  have own_pos : 0 < own := by rcases isArray with ⟨_, rfl⟩ | ⟨_, rfl⟩ <;> decide
  have each : ∀ r, ¬ r.truncated → left r ≤ fuel - 1 → ∃ v count,
      readValueOfCode fuel element r = some (v, advance count r) ∧
      text v + left (advance count r) ≤ left r ∧
      (Throughout Modest fuel true element r →
        nodes v + left (advance count r) ≤ left r + if element ∈ filledCodes then 0 else 1) := by
    intro r goesOn within
    have positive := left_pos goesOn
    rcases values r (by omega) with ⟨v, count, isRead, isShort, fewNodes⟩
    refine ⟨v, count, isRead, isShort, fun modest => ?_⟩
    have isFew := fewNodes modest
    rw [slack] at isFew
    simpa [goesOn] using isFew
  rcases @readItems_bound _ _ (fuel - 1) (if element ∈ filledCodes then 0 else 1) each count
    (advance own r) (by omega) with ⟨items, rest, areItems, isShort, fewNodes⟩
  have isRead := readValueOfCode_succ fuel code r
  rw [isShape, readShape, areItems, Option.map_some] at isRead
  rw [← advance_add] at isRead isShort fewNodes
  refine ⟨.listVal items, own + rest, isRead, ?_, ?_⟩
  · rw [text]
    omega
  · intro modest
    rw [Throughout, isShape, Modest, isShape] at modest
    rcases modest with ⟨isModest, areModest⟩
    have isFew := fewNodes areModest
    have isFilled : code ∈ filledCodes := by
      rcases isArray with ⟨rfl, _⟩ | ⟨rfl, _⟩ <;> decide
    have isHeader : headerBytes isElement code = own + slack isElement code r := by
      rw [headerBytes, slack]
      rcases isArray with ⟨rfl, rfl⟩ | ⟨rfl, rfl⟩ <;> cases isElement <;> simp [goesOn, isFilled]
    rw [isHeader] at isModest
    rw [nodes]
    split at isFew
    · omega
    · rename_i notTruncated
      have leftover := left_pos notTruncated
      by_cases takes : element ∈ filledCodes
      · rw [if_pos takes] at isFew
        omega
      · rw [if_neg takes] at isFew
        have isFewer := isModest takes
        omega

theorem readValue_atEnd (goesOn : ¬ r.truncated) (isLast : left r = 1) :
    ∃ msg, readValue (fuel + 1) r = some (.errorVal msg, advance 1 r) := by
  rcases r with ⟨bytes, pos, truncated⟩
  cases bytes with
  | nil => exact ⟨_, rfl⟩
  | cons v bytes =>
      rw [Bool.not_eq_true] at goesOn
      dsimp only at goesOn
      subst goesOn
      rw [left, List.length_cons] at isLast
      simp at isLast

theorem codeRead_described (isShape : shape code r = .described r) (goesOn : ¬ r.truncated)
    (values : ∀ r, left r ≤ fuel → ValueRead fuel r) (enough : left r < fuel + 1) :
    CodeRead (fuel + 1) isElement code r := by
  have positive := left_pos goesOn
  have isRead := readValueOfCode_succ fuel code r
  rcases values r (by omega) with ⟨desc, first, isDesc, descShort, descNodes⟩
  have firstLeft := left_advance first r
  rcases values (advance first r) (by omega) with ⟨inner, second, isInner, innerShort, innerNodes⟩
  have descPos := nodes_pos desc
  rw [isShape, readShape, readDescribed, isDesc, Option.bind_some, isInner, Option.map_some] at isRead
  rw [← advance_add] at isRead innerShort innerNodes
  have areModest : Throughout Modest (fuel + 1) isElement code r →
      left (advance first r) < left r ∧
        nodes inner + left (advance (first + second) r) ≤ max 1 (left (advance first r)) := by
    intro modest
    rw [Throughout, isShape] at modest
    rcases modest.2 with ⟨isModest, innerModest⟩
    have fewDesc := descNodes isModest
    exact ⟨by omega, innerNodes (innerModest _ isDesc)⟩
  have notLast : (∀ msg, desc ≠ .errorVal msg) → left r ≠ 1 := by
    intro noError isLast
    have isFuel : fuel = fuel - 1 + 1 := by omega
    rcases @readValue_atEnd (fuel - 1) r goesOn isLast with ⟨msg, isError⟩
    rw [isFuel, isError, Option.some_inj, Prod.mk.injEq] at isDesc
    exact noError msg isDesc.1.symm
  have isDescribed : ∀ n, (∀ msg, desc ≠ .errorVal msg) →
      readValueOfCode (fuel + 1) code r =
        some (.describedVal n inner, advance (first + second) r) → CodeRead (fuel + 1) isElement code r := by
    intro n noError isRead
    refine ⟨_, first + second, isRead, ?_, ?_⟩
    · rw [text]
      omega
    · intro modest
      rcases areModest modest with ⟨isLess, fewNodes⟩
      have notOne := notLast noError
      rw [nodes]
      omega
  cases desc with
  | uByteVal n | uShortVal n | uIntVal n | uLongVal n =>
      apply isDescribed n _ isRead
      intro msg isError
      cases isError
  | _ =>
      refine ⟨_, first + second, isRead, ?_, ?_⟩
      · rw [text]
        · omega
        all_goals
          intros
          contradiction
      · intro modest
        rcases areModest modest with ⟨isLess, fewNodes⟩
        have innerPos := nodes_pos inner
        rw [nodes]
        · omega
        all_goals
          intros
          contradiction

end Step

theorem codeRead_succ {fuel : Nat}
    (values : ∀ isElement code r, left r < fuel → CodeRead fuel isElement code r) {isElement : Bool}
    (enough : left r < fuel + 1) : CodeRead (fuel + 1) isElement code r := by
  have areValues : ∀ r, 0 < fuel → left r ≤ fuel → ValueRead fuel r := by
    intro r positive within
    have isLeft : left (readU8 r).2 = left r - 1 := left_readByte r
    exact valueRead_of_code (values _ _ _ (by omega))
  have takes := takes_shape code r
  generalize isShape : shape code r = s at takes
  cases takes with
  | @flat v count isFlat isShort isFilled =>
      have isRead := readValueOfCode_succ fuel code r
      rw [isShape] at isRead
      refine ⟨v, count, isRead, isShort, fun _ => ?_⟩
      have isLeft := left_advance count r
      rw [isFlat, slack]
      split
      · rename_i isElementOf
        have counted := isFilled isElementOf.2.2 isElementOf.2.1
        have positive := left_pos isElementOf.2.2
        omega
      · omega
  | items isNodes isText goesOn header =>
      have positive := left_pos goesOn
      exact codeRead_items isShape isNodes isText goesOn header
        (fun r _ => areValues r (by omega)) enough
  | elements goesOn isArray =>
      exact codeRead_elements isShape goesOn isArray (values true _) enough
  | described goesOn =>
      have positive := left_pos goesOn
      exact codeRead_described isShape goesOn (fun r => areValues r (by omega)) enough

theorem codeRead (fuel : Nat) (isElement : Bool) (code : Int64) (r : Reader) (enough : left r < fuel) :
    CodeRead fuel isElement code r := by
  induction fuel generalizing isElement code r with
  | zero => exact absurd enough (Nat.not_lt_zero _)
  | succ fuel ih => exact codeRead_succ ih enough

theorem shape_of_empty (isEmpty : code ∉ filledCodes) (r : Reader) :
    ∃ v, nodes v = 1 ∧ shape code r = .flat v r := by
  simp only [filledCodes, List.mem_cons, List.not_mem_nil, or_false, not_or] at isEmpty
  rw [shape]
  simp only [isEmpty, if_false]
  repeat' split
  all_goals exact ⟨_, rfl, rfl⟩

theorem readItems_empty (isEmpty : code ∉ filledCodes) (fuel count : Nat) (goesOn : ¬ r.truncated) :
    ∃ items, readItems (readValueOfCode (fuel + 1) code) count r = some (items, r) ∧
      nodesIn items = count := by
  induction count with
  | zero => exact ⟨[], rfl, rfl⟩
  | succ count ih =>
      rcases ih with ⟨items, areItems, isCount⟩
      rcases shape_of_empty isEmpty r with ⟨v, isFlat, isShape⟩
      refine ⟨v :: items, ?_, ?_⟩
      · rw [readItems, if_neg goesOn, readValueOfCode_succ, isShape, readShape, Option.bind_some, areItems,
          Option.map_some]
      · rw [nodesIn, isFlat, isCount, Nat.add_comm]

/-- An `array32` whose elements take no bytes, and what follows. -/
def emptyArray (size : Int64) (count : Nat) (element : Int64) (rest : List Int64) : List Int64 :=
  0xf0 :: (pushU32 size ++ (pushU32 (Int64.ofNat count) ++ element :: rest))

theorem length_emptyArray (size : Int64) (count : Nat) (element : Int64) (rest : List Int64) :
    (emptyArray size count element rest).length = 10 + rest.length := by
  simp [emptyArray, pushU32, fourBytes]
  omega

theorem readValue_emptyArray (isEmpty : element ∉ filledCodes) (size : Int64)
    (isCount : count < 2 ^ 32) (rest : List Int64) (fuel : Nat) :
    ∃ v r, readValue (fuel + 2) (.new (emptyArray size count element rest)) = some (v, r) ∧
      nodes v = 1 + count := by
  have isLength := length_bits count
  rw [Nat.mod_eq_of_lt isCount] at isLength
  have isShape : shape 0xf0 ⟨pushU32 size ++ (pushU32 (Int64.ofNat count) ++ element :: rest), 1, false⟩ =
      .elements element count ⟨rest, 10, false⟩ := by
    rw [shape]
    simp only [readU32_pushU32, isLength]
    rfl
  rcases readItems_empty isEmpty fuel count (r := ⟨rest, 10, false⟩) Bool.false_ne_true with
    ⟨items, areItems, isNodes⟩
  refine ⟨.listVal items, ⟨rest, 10, false⟩, ?_, ?_⟩
  · change readValueOfCode (fuel + 2) 0xf0 ⟨_, 1, false⟩ = _
    rw [readValueOfCode_succ, isShape, readShape, areItems, Option.map_some]
  · rw [nodes, isNodes]

end Amqp10Reader

open Amqp10Reader

/-- What has been decoded has no more nodes and bytes of strings than there are bytes, and one. -/
structure BoundedBy (bytes : List Int64) (nodes text : Nat) : Prop where
  nodes_le : nodes ≤ bytes.length + 1
  text_le : text ≤ bytes.length + 1

/-- Both readers return, read bytes of the list only, and what they return is bounded by it. -/
structure DecodesBounded (bytes : List Int64) : Prop where
  inside : ∀ count, (indexedByte bytes (advance count (.new bytes)).pos
    (advance count (.new bytes)).truncated).isSome
  table : ∃ enough, ∀ fuel ≥ enough, ∃ t count,
    AmqpReader091.fieldTable fuel (.new bytes) = some (t, advance count (.new bytes)) ∧
      BoundedBy bytes (nodes091 (.tableVal t)) (text091 (.tableVal t))
  value : ∃ enough, ∀ fuel ≥ enough, ∃ v count,
    readValue fuel (.new bytes) = some (v, advance count (.new bytes)) ∧
      BoundedBy bytes (nodes v) (text v)

/-- No array that is met has more elements without bytes than its header has bytes. -/
def ModestArrays (bytes : List Int64) : Prop :=
  ∀ fuel, Throughout Modest fuel false (readU8 (.new bytes)).1 (readU8 (.new bytes)).2

theorem readByte_inside (bytes : List Int64) (count : Nat) :
    (indexedByte bytes (advance count (.new bytes)).pos (advance count (.new bytes)).truncated).isSome := by
  rw [indexedByte_eq ((Over.new bytes).advance count)]
  rfl

theorem fieldTable_bounded (bytes : List Int64) : ∃ enough, ∀ fuel ≥ enough, ∃ t count,
    AmqpReader091.fieldTable fuel (.new bytes) = some (t, advance count (.new bytes)) ∧
      BoundedBy bytes (nodes091 (.tableVal t)) (text091 (.tableVal t)) := by
  refine ⟨2 * left (.new bytes) + 1, fun fuel enough => ?_⟩
  rcases AmqpReader091.fieldTable_bound (.new bytes) enough with ⟨t, count, isRead, fewNodes, isShort⟩
  rw [left_new] at fewNodes isShort
  exact ⟨t, count, isRead, by omega, by omega⟩

theorem readValue_bounded (bytes : List Int64) {fuel : Nat} (enough : left (.new bytes) ≤ fuel) :
    ∃ v count, readValue fuel (.new bytes) = some (v, advance count (.new bytes)) ∧
      text v ≤ bytes.length + 1 ∧
      (Throughout Modest fuel false (readU8 (.new bytes)).1 (readU8 (.new bytes)).2 →
        nodes v ≤ bytes.length + 1) := by
  have isLeft : left (readU8 (.new bytes)).2 = left (.new bytes) - 1 := left_readByte _
  rw [left_new] at isLeft enough
  rcases valueRead_of_code (codeRead fuel false (readU8 (.new bytes)).1 (readU8 (.new bytes)).2
    (by omega)) with ⟨v, count, isRead, isShort, fewNodes⟩
  rw [left_new] at isShort fewNodes
  refine ⟨v, count, isRead, by omega, fun modest => ?_⟩
  have isFew := fewNodes modest
  omega

theorem emptyArray_bounded_iff (size : Int64) (rest : List Int64) (isEmpty : element ∉ filledCodes)
    (isCount : count < 2 ^ 32) : DecodesBounded (emptyArray size count element rest) ↔
      count ≤ (emptyArray size count element rest).length := by
  refine ⟨?_, ?_⟩
  · rintro ⟨_, _, enough, isBounded⟩
    rcases isBounded (enough + 2) (Nat.le_add_right _ _) with ⟨v, own, isRead, bounded⟩
    rcases readValue_emptyArray isEmpty size isCount rest enough with ⟨w, r, isArray, isNodes⟩
    rw [isRead, Option.some_inj, Prod.mk.injEq] at isArray
    have few := bounded.nodes_le
    rw [isArray.1, isNodes] at few
    omega
  · intro few
    refine ⟨readByte_inside _, fieldTable_bounded _,
      left (.new (emptyArray size count element rest)) + 2, fun fuel enough => ?_⟩
    have isFuel : fuel = fuel - 2 + 2 := by omega
    rcases readValue_emptyArray isEmpty size isCount rest (fuel - 2) with ⟨w, r, isArray, isNodes⟩
    rcases @readValue_bounded (emptyArray size count element rest) fuel (by omega) with
      ⟨v, own, isRead, isShort, _⟩
    rw [← isFuel, isRead, Option.some_inj, Prod.mk.injEq] at isArray
    refine ⟨v, own, isRead, ?_, isShort⟩
    rw [isArray.1, isNodes]
    omega

/-- Decoding is bounded when arrays are modest; and a frame that begins with an array of elements
without bytes is bounded exactly when it declares no more of them than the frame has bytes. -/
theorem decodesBounded_of_modest (bytes : List Int64) :
    (ModestArrays bytes → DecodesBounded bytes) ∧
      ∀ (size : Int64) (count : Nat) (element : Int64) (rest : List Int64),
        bytes = emptyArray size count element rest → element ∉ filledCodes → count < 2 ^ 32 →
        (DecodesBounded bytes ↔ count ≤ bytes.length) := by
  constructor
  · intro modest
    refine ⟨readByte_inside bytes, fieldTable_bounded bytes, left (.new bytes), fun fuel enough => ?_⟩
    rcases readValue_bounded bytes enough with ⟨v, count, isRead, isShort, fewNodes⟩
    exact ⟨v, count, isRead, fewNodes (modest fuel), isShort⟩
  · rintro size count element rest rfl
    exact emptyArray_bounded_iff size rest

/-- An array of three elements without bytes is modest: code, size, count and element code. -/
theorem decodesBounded_of_modest_three : DecodesBounded [0xe0, 2, 3, 0x41] := by
  apply (decodesBounded_of_modest _).1
  intro fuel
  have element : ∀ fuel, Throughout Modest fuel true 0x41 ⟨[], 4, false⟩ := by
    intro fuel
    cases fuel with
    | zero => exact trivial
    | succ fuel => exact ⟨trivial, trivial⟩
  have elements : ∀ fuel count, EachItem (readValueOfCode fuel 0x41) (Throughout Modest fuel true 0x41)
      count ⟨[], 4, false⟩ := by
    intro fuel count
    induction count with
    | zero => exact trivial
    | succ count ih =>
        refine .inr ⟨element fuel, fun item isItem => ?_⟩
        cases fuel with
        | zero => exact nomatch isItem
        | succ fuel =>
            rw [← Option.some_inj.mp isItem]
            exact ih
  cases fuel with
  | zero => exact trivial
  | succ fuel => exact ⟨fun _ => by decide, elements fuel 3⟩

/-- Ten bytes that are read as 4294967295 elements. -/
theorem emptyArray_notBounded : ¬ DecodesBounded (emptyArray 1 (2 ^ 32 - 1) 0x40 []) := by
  rw [emptyArray_bounded_iff 1 [] (by decide) (by decide), length_emptyArray]
  decide

end Tinox.Amqp
