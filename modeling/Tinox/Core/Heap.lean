import Mathlib.Data.Multiset.AddSub
import Mathlib.Order.Lattice
import Mathlib.Order.RelClasses

/-!
# Heaps

`Heap` keeps its items in a list, in which each item stands behind its parent.  A push and a pop
break that at one place, which moves along a path of parents or of children until it is repaired.
-/

namespace Tinox.Core

variable {T : Type}

/-- `Heap`. -/
structure Heap (T : Type) where
  items : List T
  comparator : T → T → Bool

namespace Heap

/-! ## Loops

A loop breaks down where an index is out of range, or where it has not ended after as many rounds
as it is given. -/

/-- The loop of `Heap::siftUp`. -/
def siftUp (comparator : T → T → Bool) : Nat → List T → Nat → Option (List T)
  | 0, _, _ => none
  | rounds + 1, items, index =>
      if index > 0 then do
        let parent := (index - 1) / 2
        let item ← items[index]?
        let above ← items[parent]?
        if comparator item above then
          siftUp comparator rounds ((items.set index above).set parent item) parent
        else return items
      else some items

/-- The place of the smaller one of two items, the first of which may not be there. -/
def smaller (comparator : T → T → Bool) (items : List T) (child smallest : Nat) : Option Nat :=
  if child < items.length then do
    if comparator (← items[child]?) (← items[smallest]?) then return child else return smallest
  else some smallest

/-- The place of the smallest item among an index and its children. -/
def smallest (comparator : T → T → Bool) (items : List T) (index : Nat) : Option Nat := do
  let left := 2 * index + 1
  let right := 2 * index + 2
  smaller comparator items right (← smaller comparator items left index)

/-- The loop of `Heap::siftDown`. -/
def siftDown (comparator : T → T → Bool) : Nat → List T → Nat → Option (List T)
  | 0, _, _ => none
  | rounds + 1, items, index => do
      let smallest ← smallest comparator items index
      if smallest ≠ index then
        let temp ← items[index]?
        let item ← items[smallest]?
        siftDown comparator rounds ((items.set index item).set smallest temp) smallest
      else return items

/-- The loop of `Heap::buildHeap`, from below an index. -/
def sift (comparator : T → T → Bool) : Nat → List T → Option (List T)
  | 0, items => some items
  | i + 1, items => do
      sift comparator i (← siftDown comparator items.length items i)

/-- A call. -/
inductive Call (T : Type) where
  | push (item : T)
  | pop
  | peek
  | buildHeap (items : List T)

/-- What a call returns or throws. -/
inductive Answer (T : Type) where
  | nothing
  | item (item : T)
  | thrown (message : String)

/-- `Heap::push`. -/
def push (heap : Heap T) (item : T) : Option (Heap T) := do
  let items := heap.items ++ [item]
  return { heap with items := ← siftUp heap.comparator items.length items (items.length - 1) }

/-- `Heap::pop`. -/
def pop (heap : Heap T) : Option (Answer T × Heap T) :=
  if heap.items.length = 0 then some (.thrown "Heap is empty", heap)
  else do
    let result ← heap.items[0]?
    let last ← heap.items[heap.items.length - 1]?
    let items := heap.items.dropLast
    if items.length > 0 then
      let items ← siftDown heap.comparator items.length (items.set 0 last) 0
      return (.item result, { heap with items })
    else return (.item result, { heap with items })

/-- `Heap::peek`. -/
def peek (heap : Heap T) : Option (Answer T) :=
  if heap.items.length = 0 then some (.thrown "Heap is empty")
  else heap.items[0]?.map .item

/-- `Heap::buildHeap`. -/
def buildHeap (heap : Heap T) (items : List T) : Option (Heap T) := do
  return { heap with items := ← sift heap.comparator (items.length / 2) items }

/-- What a call returns and leaves. -/
def call (heap : Heap T) : Call T → Option (Answer T × Heap T)
  | .push item => (heap.push item).map (.nothing, ·)
  | .pop => heap.pop
  | .peek => heap.peek.map (·, heap)
  | .buildHeap items => (heap.buildHeap items).map (.nothing, ·)

section Order

variable {comparator : T → T → Bool} {items : List T} {i j k : Nat} {a b : T}

/-- The item at an index does not precede the one at another index. -/
def Behind (comparator : T → T → Bool) (items : List T) (i j : Nat) : Prop :=
  ∀ a b, items[i]? = some a → items[j]? = some b → comparator a b = false

theorem behind_of_length_le (out : items.length ≤ i) : Behind comparator items i j := by
  intro a b isHere
  rw [List.getElem?_eq_none out] at isHere
  cases isHere

theorem Behind.congr {items' : List T} {i' j' : Nat} (behind : Behind comparator items i j)
    (first : items'[i']? = items[i]?) (second : items'[j']? = items[j]?) :
    Behind comparator items' i' j' := by
  rw [Behind, first, second]
  exact behind

/-- Every item whose parent stands at an index from a start on is behind its parent. -/
def OrderedFrom (comparator : T → T → Bool) (start : Nat) (items : List T) : Prop :=
  ∀ i, 0 < i → start ≤ (i - 1) / 2 → Behind comparator items i ((i - 1) / 2)

/-- Every item is behind its parent, except for one, whose children are behind its parent. -/
structure UpReady (comparator : T → T → Bool) (items : List T) (index : Nat) : Prop where
  others : ∀ i, 0 < i → i ≠ index → Behind comparator items i ((i - 1) / 2)
  children : ∀ i, 0 < i → 0 < index → (i - 1) / 2 = index →
    Behind comparator items i ((index - 1) / 2)

/-- From a start on every item is behind its parent, except for the children of one, which are
behind its parent. -/
structure DownReady (comparator : T → T → Bool) (start : Nat) (items : List T) (index : Nat) :
    Prop where
  others : ∀ i, 0 < i → start ≤ (i - 1) / 2 → (i - 1) / 2 ≠ index →
    Behind comparator items i ((i - 1) / 2)
  children : ∀ i, 0 < i → 0 < index → start ≤ (index - 1) / 2 → (i - 1) / 2 = index →
    Behind comparator items i ((index - 1) / 2)

theorem getElem?_swap (first : items[i]? = some a) (second : items[j]? = some b) (k : Nat) :
    ((items.set i b).set j a)[k]? = items[if k = j then i else if k = i then j else k]? := by
  have inFirst := (List.getElem?_eq_some_iff.mp first).1
  have inSecond := (List.getElem?_eq_some_iff.mp second).1
  grind

theorem perm_swap (first : items[i]? = some a) (second : items[j]? = some b) :
    ((items.set i b).set j a).Perm items := by
  rcases List.getElem?_eq_some_iff.mp first with ⟨inFirst, rfl⟩
  rcases List.getElem?_eq_some_iff.mp second with ⟨inSecond, rfl⟩
  exact List.set_set_perm inFirst inSecond

variable [IsStrictWeakOrder T (comparator · · = true)]

theorem behind_of_comparator (precedes : comparator a b = true) (first : items[i]? = some a)
    (second : items[j]? = some b) : Behind comparator items j i := by
  intro b' a' isSecond isFirst
  cases second.symm.trans isSecond
  cases first.symm.trans isFirst
  exact Bool.not_eq_true _ ▸ asymm_of (comparator · · = true) precedes

theorem behind_self (i : Nat) : Behind comparator items i i := by
  intro a b first second
  cases first.symm.trans second
  exact Bool.not_eq_true _ ▸ irrefl_of (comparator · · = true) a

/-- Where nothing precedes in two steps, nothing precedes. -/
theorem not_comparator_trans {c : T} (first : comparator a b = false)
    (second : comparator b c = false) : comparator a c = false := by
  by_contra precedes
  rw [Bool.not_eq_false] at precedes
  have noFirst : ¬ comparator b a = true := by
    intro before
    rw [trans_of (comparator · · = true) before precedes] at second
    cases second
  have noSecond : ¬ comparator c b = true := by
    intro before
    rw [trans_of (comparator · · = true) precedes before] at first
    cases first
  have apart := ‹IsStrictWeakOrder T (comparator · · = true)›.incomp_trans a b c
    ⟨by simp [first], noFirst⟩ ⟨by simp [second], noSecond⟩
  exact apart.1 precedes

theorem Behind.trans (first : Behind comparator items i j) (inside : j < items.length)
    (second : Behind comparator items j k) : Behind comparator items i k := by
  intro a c isFirst isLast
  have isMiddle := List.getElem?_eq_getElem inside
  exact not_comparator_trans (first _ _ isFirst isMiddle) (second _ _ isMiddle isLast)

variable {index rounds start : Nat}

/-- An item that precedes its parent takes its place. -/
theorem UpReady.swap (ready : UpReady comparator items index) (positive : 0 < index)
    (isItem : items[index]? = some a) (isAbove : items[(index - 1) / 2]? = some b)
    (precedes : comparator a b = true) :
    UpReady comparator ((items.set index b).set ((index - 1) / 2) a) ((index - 1) / 2) := by
  have swapped := getElem?_swap isItem isAbove
  have parentInside := (List.getElem?_eq_some_iff.mp isAbove).1
  have behind := behind_of_comparator precedes isItem isAbove
  constructor
  · intro i some_ other
    by_cases isIndex : i = index
    · exact behind.congr (by grind) (by grind)
    by_cases isChild : (i - 1) / 2 = index
    · exact (ready.children i some_ positive isChild).congr (by grind) (by grind)
    have old := ready.others i some_ isIndex
    by_cases isSibling : (i - 1) / 2 = (index - 1) / 2
    · rw [isSibling] at old
      exact (old.trans parentInside behind).congr (by grind) (by grind)
    · exact old.congr (by grind) (by grind)
  · intro i some_ parentPositive isChild
    have up := ready.others _ parentPositive (by omega)
    by_cases isIndex : i = index
    · exact up.congr (by grind) (by grind)
    · have old := ready.others i some_ isIndex
      rw [isChild] at old
      exact (old.trans parentInside up).congr (by grind) (by grind)

theorem siftUp_spec (ready : UpReady comparator items index) (inside : index < items.length)
    (enough : index < rounds) :
    ∃ items', siftUp comparator rounds items index = some items' ∧ items'.Perm items ∧
      OrderedFrom comparator 0 items' := by
  induction rounds generalizing items index with
  | zero => contradiction
  | succ rounds ih =>
      rw [siftUp]
      by_cases positive : index > 0
      · have isItem := List.getElem?_eq_getElem inside
        have isAbove := List.getElem?_eq_getElem (show (index - 1) / 2 < items.length by omega)
        simp only [positive, if_true, isItem, isAbove, Option.bind_eq_bind, Option.bind_some]
        cases precedes : comparator items[index] items[(index - 1) / 2] with
        | true =>
            rcases ih (ready.swap positive isItem isAbove precedes) (by simp; omega) (by omega) with
              ⟨items', run, perm, ordered⟩
            exact ⟨items', run, perm.trans (perm_swap isItem isAbove), ordered⟩
        | false =>
            refine ⟨items, rfl, .refl items, ?_⟩
            intro i some_ _
            by_cases isIndex : i = index
            · rintro a b first second
              cases isIndex
              cases isItem.symm.trans first
              cases isAbove.symm.trans second
              exact precedes
            · exact ready.others i some_ isIndex
      · rw [if_neg positive]
        exact ⟨items, rfl, .refl items, fun i some_ _ => ready.others i some_ (by omega)⟩

variable (comparator) in
theorem smaller_spec (child : Nat) (inside : index < items.length) :
    ∃ least, smaller comparator items child index = some least ∧ least < items.length ∧
      (least = child ∨ least = index) ∧ Behind comparator items child least ∧
      Behind comparator items index least := by
  rw [smaller]
  by_cases isChild : child < items.length
  · have isItem := List.getElem?_eq_getElem isChild
    have isHere := List.getElem?_eq_getElem inside
    simp only [isChild, if_true, isItem, isHere, Option.bind_eq_bind, Option.bind_some]
    cases precedes : comparator items[child] items[index] with
    | true =>
        exact ⟨child, rfl, isChild, .inl rfl, behind_self child,
          behind_of_comparator precedes isItem isHere⟩
    | false =>
        refine ⟨index, rfl, inside, .inr rfl, ?_, behind_self index⟩
        intro a b first second
        cases isItem.symm.trans first
        cases isHere.symm.trans second
        exact precedes
  · rw [if_neg isChild]
    exact ⟨index, rfl, inside, .inr rfl, behind_of_length_le (Nat.le_of_not_lt isChild),
      behind_self index⟩

variable (comparator) in
theorem smallest_spec (inside : index < items.length) :
    ∃ child, smallest comparator items index = some child ∧ child < items.length ∧
      (child = index ∨ child = 2 * index + 1 ∨ child = 2 * index + 2) ∧
      (∀ i, i = index ∨ i = 2 * index + 1 ∨ i = 2 * index + 2 → Behind comparator items i child) := by
  rcases smaller_spec comparator (2 * index + 1) inside with
    ⟨middle, isMiddle, inMiddle, oneOf, left, here⟩
  rcases smaller_spec comparator (2 * index + 2) inMiddle with
    ⟨child, isChild, inChild, oneOf', right, further⟩
  refine ⟨child, by simp [smallest, isMiddle, isChild], inChild, by omega, ?_⟩
  rintro i (rfl | rfl | rfl)
  · exact here.trans inMiddle further
  · exact left.trans inMiddle further
  · exact right

omit [IsStrictWeakOrder T (comparator · · = true)] in
/-- The smallest child takes the place of its parent. -/
theorem DownReady.swap {child : Nat} (ready : DownReady comparator start items index)
    (isTemp : items[index]? = some a) (isItem : items[child]? = some b)
    (isChild : child = 2 * index + 1 ∨ child = 2 * index + 2)
    (least : ∀ i, i = index ∨ i = 2 * index + 1 ∨ i = 2 * index + 2 → Behind comparator items i child) :
    DownReady comparator start ((items.set index b).set child a) child := by
  have swapped := getElem?_swap isTemp isItem
  constructor
  · intro i some_ from_ other
    by_cases isBelow : (i - 1) / 2 = index
    · by_cases same : i = child
      · exact (least index (.inl rfl)).congr (by grind) (by grind)
      · exact (least i (by omega)).congr (by grind) (by grind)
    by_cases isIndex : i = index
    · rw [isIndex] at some_ from_ ⊢
      exact (ready.children child (by omega) some_ from_ (by omega)).congr (by grind) (by grind)
    · exact (ready.others i some_ from_ isBelow).congr (by grind) (by grind)
  · intro i some_ positive from_ isBelow
    have old := ready.others i some_ (by omega) (by omega)
    exact old.congr (by grind) (by grind)

theorem siftDown_spec (ready : DownReady comparator start items index) (inside : index < items.length)
    (enough : items.length ≤ rounds + index) :
    ∃ items', siftDown comparator rounds items index = some items' ∧ items'.Perm items ∧
      OrderedFrom comparator start items' := by
  induction rounds generalizing items index with
  | zero => omega
  | succ rounds ih =>
      rcases smallest_spec comparator inside with ⟨child, isLeast, inChild, isChild, least⟩
      simp only [siftDown, isLeast, Option.bind_eq_bind, Option.bind_some]
      by_cases same : child = index
      · cases same
        refine ⟨items, by simp, .refl items, ?_⟩
        intro i some_ from_
        by_cases isBelow : (i - 1) / 2 = index
        · rw [isBelow]
          exact least i (by omega)
        · exact ready.others i some_ from_ isBelow
      · have isTemp := List.getElem?_eq_getElem inside
        have isItem := List.getElem?_eq_getElem inChild
        have isBelow := isChild.resolve_left same
        rcases ih (ready.swap isTemp isItem isBelow least) (by simpa using inChild)
          (by simp; omega) with ⟨items', run, perm, ordered⟩
        refine ⟨items', ?_, perm.trans (perm_swap isTemp isItem), ordered⟩
        simpa [same, isTemp, isItem] using run

theorem sift_spec (ordered : OrderedFrom comparator index items) (inside : index ≤ items.length) :
    ∃ items', sift comparator index items = some items' ∧ items'.Perm items ∧
      OrderedFrom comparator 0 items' := by
  induction index generalizing items with
  | zero => exact ⟨items, rfl, .refl items, ordered⟩
  | succ index ih =>
      have ready : DownReady comparator index items index :=
        ⟨fun i some_ from_ other => ordered i some_ (by omega), fun i _ _ _ => by omega⟩
      rcases siftDown_spec ready inside (Nat.le_add_right items.length index) with
        ⟨middle, down, permDown, orderedDown⟩
      rcases ih orderedDown (by rw [permDown.length_eq]; omega) with ⟨items', run, perm, ordered'⟩
      exact ⟨items', by simp [sift, down, run], perm.trans permDown, ordered'⟩

/-- Nothing precedes the first item. -/
theorem OrderedFrom.root (ordered : OrderedFrom comparator 0 items) (i : Nat) :
    Behind comparator items i 0 := by
  induction i using Nat.strong_induction_on with
  | h i ih =>
      by_cases inside : i < items.length
      · by_cases positive : 0 < i
        · exact (ordered i positive (Nat.zero_le _)).trans (by omega) (ih _ (by omega))
        · rw [Nat.eq_zero_of_not_pos positive]
          exact behind_self 0
      · exact behind_of_length_le (Nat.le_of_not_lt inside)

end Order

section Queue

/-- What a call on a priority queue returns, by what is in the queue before and after it. -/
def Answers (precedes : T → T → Prop) : Call T → Answer T → Multiset T → Multiset T → Prop
  | .push item, answer, before, after => answer = .nothing ∧ after = item ::ₘ before
  | .pop, answer, before, after =>
      (before = 0 ∧ answer = .thrown "Heap is empty" ∧ after = before) ∨
        ∃ item, answer = .item item ∧ before = item ::ₘ after ∧ ∀ other ∈ before, ¬ precedes other item
  | .peek, answer, before, after =>
      after = before ∧ ((before = 0 ∧ answer = .thrown "Heap is empty") ∨
        ∃ item ∈ before, answer = .item item ∧ ∀ other ∈ before, ¬ precedes other item)
  | .buildHeap items, answer, _, after => answer = .nothing ∧ after = items

/-- What a sequence of calls on a priority queue returns. -/
def AllAnswer (precedes : T → T → Prop) :
    List (Call T) → List (Answer T) → Multiset T → Multiset T → Prop
  | [], answers, before, after => answers = [] ∧ after = before
  | call :: calls, answers, before, after =>
      ∃ answer later middle, answers = answer :: later ∧ Answers precedes call answer before middle ∧
        AllAnswer precedes calls later middle after

/-- What a sequence of calls returns and leaves. -/
def run {σ : Type} (call : σ → Call T → Option (Answer T × σ)) (heap : σ) :
    List (Call T) → Option (List (Answer T) × σ)
  | [] => some ([], heap)
  | first :: calls => do
      let (answer, heap) ← call heap first
      let (answers, heap) ← run call heap calls
      return (answer :: answers, heap)

/-- A heap with a comparator: every item is behind its parent. -/
structure Ordered (comparator : T → T → Bool) (heap : Heap T) : Prop where
  sameComparator : heap.comparator = comparator
  ordered : OrderedFrom comparator 0 heap.items

/-- Every sequence of calls answers as a priority queue does, and leaves every item behind its
parent. -/
def IsQueue {σ : Type} (call : σ → Call T → Option (Answer T × σ)) (inner : σ → Heap T)
    (comparator : T → T → Bool) (new : σ) : Prop :=
  ∀ calls, ∃ answers h, run call new calls = some (answers, h) ∧
    OrderedFrom comparator 0 (inner h).items ∧
    AllAnswer (comparator · · = true) calls answers (inner new).items (inner h).items

variable {comparator : T → T → Bool} {heap : Heap T}

/-- A heap inside of another object. -/
theorem IsQueue.wrapped {σ : Type} (wrap : Heap T → σ) {inner : σ → Heap T}
    {call' : σ → Call T → Option (Answer T × σ)} (isInner : ∀ heap, inner (wrap heap) = heap)
    (same : ∀ heap call, call' (wrap heap) call =
      (heap.call call).map fun (answer, heap) => (answer, wrap heap))
    (isQueue : IsQueue call id comparator heap) : IsQueue call' inner comparator (wrap heap) := by
  have runs : ∀ calls heap, run call' (wrap heap) calls =
      (run Heap.call heap calls).map fun (answers, heap) => (answers, wrap heap) := by
    intro calls
    induction calls with
    | nil => exact fun _ => rfl
    | cons call calls ih =>
        intro heap
        rw [run, run, same]
        cases heap.call call with
        | none => rfl
        | some first =>
            simp only [Option.map_some, Option.bind_eq_bind, Option.bind_some, ih]
            cases run Heap.call first.2 calls <;> rfl
  intro calls
  rcases isQueue calls with ⟨answers, h, isRun, holds⟩
  exact ⟨answers, wrap h, by rw [runs, isRun, Option.map_some], by simpa [isInner] using holds⟩

variable [IsStrictWeakOrder T (comparator · · = true)]

namespace Ordered

theorem root (ordered : Ordered comparator heap) {item other : T} (isRoot : heap.items[0]? = some item)
    (member : other ∈ heap.items) : ¬ comparator other item = true := by
  rcases List.getElem?_of_mem member with ⟨i, isOther⟩
  rw [ordered.ordered.root i _ _ isOther isRoot]
  exact Bool.false_ne_true

theorem push (ordered : Ordered comparator heap) (item : T) :
    ∃ heap', heap.push item = some heap' ∧ Ordered comparator heap' ∧
      (heap'.items : Multiset T) = item ::ₘ heap.items := by
  have ready : UpReady comparator (heap.items ++ [item]) heap.items.length := by
    constructor
    · intro i some_ other
      by_cases inside : i < heap.items.length
      · exact (ordered.ordered i some_ (Nat.zero_le _)).congr (by grind) (by grind)
      · exact behind_of_length_le (by simp; omega)
    · intro i _ _ isChild
      exact behind_of_length_le (by simp; omega)
  rcases siftUp_spec ready (by simp) (Nat.lt_succ_self _) with
    ⟨items, run, perm, ordered'⟩
  obtain rfl := ordered.sameComparator
  refine ⟨{ heap with items }, by simp [Heap.push, run], ⟨rfl, ordered'⟩, ?_⟩
  rw [Multiset.cons_coe]
  exact Multiset.coe_eq_coe.mpr (perm.trans (List.perm_append_singleton _ _))

theorem pop (ordered : Ordered comparator heap) :
    ∃ answer heap', heap.pop = some (answer, heap') ∧ Ordered comparator heap' ∧
      Answers (comparator · · = true) .pop answer heap.items heap'.items := by
  obtain rfl := ordered.sameComparator
  rcases heap with ⟨_ | ⟨result, rest⟩, comparator⟩
  · exact ⟨_, _, rfl, ordered, .inl ⟨rfl, rfl, rfl⟩⟩
  have root : ∀ other ∈ result :: rest, ¬ comparator other result = true :=
    fun other => ordered.root rfl
  rcases List.eq_nil_or_concat rest with rfl | ⟨middle, last, rfl⟩
  · refine ⟨.item result, ⟨[], comparator⟩, rfl, ⟨rfl, ?_⟩, .inr ⟨result, rfl, rfl, root⟩⟩
    exact fun i _ _ => behind_of_length_le (Nat.zero_le i)
  · have ready : DownReady comparator 0 (last :: middle) 0 := by
      constructor
      · intro i some_ _ other
        by_cases inside : i < middle.length + 1
        · exact (ordered.ordered i some_ (Nat.zero_le _)).congr (by grind) (by grind)
        · exact behind_of_length_le (by simpa using inside)
      · intro i _ positive
        exact absurd positive (Nat.lt_irrefl 0)
    rcases siftDown_spec ready (by simp) (Nat.le_refl (middle.length + 1)) with
      ⟨items, run, perm, ordered'⟩
    have dropped : (result :: (middle ++ [last])).dropLast = result :: middle := by
      rw [← List.cons_append, List.dropLast_concat]
    refine ⟨.item result, ⟨items, comparator⟩, ?_, ⟨rfl, ordered'⟩, .inr ⟨result, rfl, ?_, root⟩⟩
    · simp [Heap.pop, dropped, run]
    · rw [Multiset.cons_coe]
      have same : (middle.concat last).Perm items := by
        rw [List.concat_eq_append]
        exact (List.perm_append_singleton last middle).trans perm.symm
      exact Multiset.coe_eq_coe.mpr (same.cons result)

theorem build (same : heap.comparator = comparator) (items : List T) :
    ∃ heap', heap.buildHeap items = some heap' ∧ Ordered comparator heap' ∧
      (heap'.items : Multiset T) = items := by
  have start : OrderedFrom comparator (items.length / 2) items := by
    intro i some_ from_
    exact behind_of_length_le (by omega)
  rcases sift_spec start (Nat.div_le_self _ _) with ⟨items', run, perm, ordered'⟩
  obtain rfl := same
  exact ⟨{ heap with items := items' }, by simp [buildHeap, run], ⟨rfl, ordered'⟩,
    Multiset.coe_eq_coe.mpr perm⟩

/-- Every call keeps the order and answers as a priority queue does. -/
theorem call (ordered : Ordered comparator heap) (call : Call T) :
    ∃ answer heap', heap.call call = some (answer, heap') ∧ Ordered comparator heap' ∧
      Answers (comparator · · = true) call answer heap.items heap'.items := by
  cases call with
  | push item =>
      rcases ordered.push item with ⟨heap', run, ordered', items⟩
      exact ⟨.nothing, heap', by simp [Heap.call, run], ordered', rfl, items⟩
  | pop => exact ordered.pop
  | peek =>
      by_cases empty : heap.items.length = 0
      · have nil := List.eq_nil_of_length_eq_zero empty
        exact ⟨_, heap, by simp [Heap.call, peek, empty], ordered, rfl, .inl ⟨by simp [nil], rfl⟩⟩
      · have isRoot := List.getElem?_eq_getElem (Nat.pos_of_ne_zero empty)
        exact ⟨_, heap, by simp [Heap.call, peek, empty, isRoot], ordered, rfl, .inr
          ⟨_, List.getElem_mem _, rfl, fun other => ordered.root isRoot⟩⟩
  | buildHeap items =>
      rcases build ordered.sameComparator items with ⟨heap', run, ordered', isItems⟩
      exact ⟨.nothing, heap', by simp [Heap.call, run], ordered', rfl, isItems⟩

theorem isQueue (ordered : Ordered comparator heap) : IsQueue Heap.call id comparator heap := by
  intro calls
  induction calls generalizing heap with
  | nil => exact ⟨[], heap, rfl, ordered.ordered, rfl, rfl⟩
  | cons call calls ih =>
      rcases ordered.call call with ⟨answer, middle, first, orderedMiddle, answers⟩
      rcases ih orderedMiddle with ⟨later, heap', run, ordered', answersLater⟩
      exact ⟨answer :: later, heap', by simp [Heap.run, first, run], ordered', answer, later, _, rfl,
        answers, answersLater⟩

end Ordered

end Queue

end Heap

/-- `Heap::newWithCompare`. -/
def Heap.newWithCompare (comparator : T → T → Bool) : Heap T :=
  ⟨[], comparator⟩

/-- `Heap::new`. -/
def Heap.new [LT T] [DecidableLT T] : Heap T :=
  ⟨[], fun a b => a < b⟩

/-- `MinHeap`. -/
structure MinHeap (T : Type) where
  heap : Heap T

/-- `MaxHeap`. -/
structure MaxHeap (T : Type) where
  heap : Heap T

/-- `MinHeap::new`. -/
def MinHeap.new [LT T] [DecidableLT T] : MinHeap T :=
  ⟨Heap.new⟩

/-- `MaxHeap::new`. -/
def MaxHeap.new [LT T] [DecidableLT T] : MaxHeap T :=
  ⟨Heap.newWithCompare fun a b => a > b⟩

/-- `MinHeap::push`, `MinHeap::pop` and `MinHeap::peek`, and `Heap::buildHeap` for the heap. -/
def MinHeap.call (h : MinHeap T) (call : Heap.Call T) : Option (Heap.Answer T × MinHeap T) :=
  (h.heap.call call).map fun (answer, heap) => (answer, ⟨heap⟩)

/-- `MaxHeap::push`, `MaxHeap::pop` and `MaxHeap::peek`, and `Heap::buildHeap` for the heap. -/
def MaxHeap.call (h : MaxHeap T) (call : Heap.Call T) : Option (Heap.Answer T × MaxHeap T) :=
  (h.heap.call call).map fun (answer, heap) => (answer, ⟨heap⟩)

end Tinox.Core
