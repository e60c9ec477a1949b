import Tinox.Runtime.Arrays

/-!
# Array handles

Calls on handles, where each new array gets the next handle, and the lists of
elements that the handles stand for.
-/

namespace Tinox.Runtime.Arrays

/-- Calls, with handles and 64-bit arguments. -/
inductive Call where
  | new (len cap : Int64)
  | get (h : Nat) (idx : Int64)
  | push (h : Nat) (val : Int64)
  | pop (h : Nat)
  | insert (h : Nat) (idx val : Int64)
  | removeAt (h : Nat) (idx : Int64)
  | slice (h : Nat) (start stop : Int64)
  | reverse (h : Nat)

/-- The arrays behind all handles. -/
abbrev Heap := List TinoxArray

/-- The array behind a handle. -/
def behind (heap : Heap) (h : Nat) : Except Stop TinoxArray :=
  match heap[h]? with
  | some a => .ok a
  | none => .error .outOfBounds

/-- What a call does to the arrays, and what it answers. -/
def call (available : Nat → Bool) (heap : Heap) : Call → Except Stop (Heap × Option Int64)
  | .new len cap => do
      let a ← tinoxArrayNew available len.toInt cap.toInt
      pure (heap ++ [a], none)
  | .get h idx => do
      let a ← behind heap h
      let value ← tinoxArrayGet a idx.toInt
      pure (heap, some value)
  | .push h val => do
      let a ← behind heap h
      let b ← tinoxArrayPush available a val
      pure (heap.set h b, none)
  | .pop h => do
      let a ← behind heap h
      pure (heap.set h (tinoxArrayPop a), none)
  | .insert h idx val => do
      let a ← behind heap h
      let b ← tinoxArrayInsert available a idx.toInt val
      pure (heap.set h b, none)
  | .removeAt h idx => do
      let a ← behind heap h
      let b ← tinoxArrayRemoveAt a idx.toInt
      pure (heap.set h b, none)
  | .slice h start stop => do
      let a ← behind heap h
      let b ← tinoxArraySlice available a start.toInt stop.toInt
      pure (heap ++ [b], none)
  | .reverse h => do
      let a ← behind heap h
      let b ← tinoxArrayReverse available a
      pure (heap ++ [b], none)

namespace Call

/-- The handle of a call is one of so many. -/
def Valid (count : Nat) : Call → Prop
  | .new .. => True
  | .get h _ | .push h _ | .pop h | .insert h .. | .removeAt h _ | .slice h .. | .reverse h => h < count

/-- What a call does to the lists behind the handles. -/
def onLists (lists : List (List Int64)) : Call → List (List Int64)
  | .new len _ => lists ++ [List.replicate len.toInt.toNat 0]
  | .get .. => lists
  | .push h val => lists.modify h fun xs => xs ++ [val]
  | .pop h => lists.modify h List.dropLast
  | .insert h idx val => lists.modify h fun xs =>
      xs.take (clamp idx.toInt xs.length) ++ val :: xs.drop (clamp idx.toInt xs.length)
  | .removeAt h idx => lists.modify h fun xs =>
      if idx.toInt < 0 then xs else xs.eraseIdx idx.toInt.toNat
  | .slice h start stop =>
      lists ++ [((lists.getD h []).take stop.toInt.toNat).drop start.toInt.toNat]
  | .reverse h => lists ++ [(lists.getD h []).reverse]

/-- What a call answers. -/
def answer (lists : List (List Int64)) : Call → Option Int64
  | .get h idx => (lists.getD h [])[idx.toInt.toNat]?
  | _ => none

/-- The call reports an error: there is no such element or no such array. -/
def Rejected (lists : List (List Int64)) : Call → Prop
  | .get h idx => ¬ (0 ≤ idx.toInt ∧ idx.toInt < (lists.getD h []).length)
  | .new len cap => (2 ^ 64 - 1) / 8 < max len.toInt cap.toInt
  | _ => False

/-- Arrays have a length of at least 0, and the bounds of slices are not too far apart. -/
def Near : Call → Prop
  | .new len _ => 0 ≤ len.toInt
  | .slice _ start stop => start.toInt - 2 ^ 63 ≤ stop.toInt
  | _ => True

end Call

/-- The arrays hold the lists. -/
structure Refines (heap : Heap) (lists : List (List Int64)) : Prop where
  contents : heap.map TinoxArray.contents = lists
  wellFormed : ∀ a ∈ heap, a.WellFormed

/-- The call returns the answer for the lists and arrays that hold the changed lists, runs
out of memory, or reports an error where it should. -/
def Fits (available : Nat → Bool) (heap : Heap) (lists : List (List Int64)) (c : Call) : Prop :=
  Yields (fun result => result.2 = c.answer lists ∧ Refines result.1 (c.onLists lists))
    (fun stop => stop = .memory ∨ (stop = .exit ∧ c.Rejected lists)) (call available heap c)

/-- The arrays and lists after calls that meet a condition. -/
inductive Run (available : Nat → Bool) (allowed : Call → Prop) :
    Heap → List (List Int64) → Prop where
  | start : Run available allowed [] []
  | call {heap lists c result} : Run available allowed heap lists → c.Valid heap.length →
      allowed c → call available heap c = .ok result →
      Run available allowed result.1 (c.onLists lists)

namespace Refines

variable {available : Nat → Bool} {heap : Heap} {lists : List (List Int64)}

theorem length (refines : Refines heap lists) : heap.length = lists.length := by
  rw [← refines.contents, List.length_map]

theorem behind (refines : Refines heap lists) {h : Nat} (inside : h < heap.length) :
    ∃ a, behind heap h = .ok a ∧ a.WellFormed ∧ lists.getD h [] = a.contents ∧ heap[h]? = some a := by
  have found : heap[h]? = some heap[h] := List.getElem?_eq_getElem inside
  refine ⟨heap[h], by rw [Arrays.behind, found], refines.wellFormed _ (List.getElem_mem inside), ?_,
    found⟩
  rw [← refines.contents, List.getD_eq_getElem?_getD, List.getElem?_map, found]
  rfl

theorem append (refines : Refines heap lists) {a : TinoxArray} (wellFormed : a.WellFormed)
    {xs : List Int64} (same : a.contents = xs) : Refines (heap ++ [a]) (lists ++ [xs]) where
  contents := by rw [List.map_append, refines.contents, List.map_singleton, same]
  wellFormed b member := by
    rcases List.mem_append.mp member with member | member
    · exact refines.wellFormed b member
    · rw [List.mem_singleton.mp member]
      exact wellFormed

theorem set (refines : Refines heap lists) {h : Nat} {a b : TinoxArray} (found : heap[h]? = some a)
    (wellFormed : b.WellFormed) {f : List Int64 → List Int64} (same : b.contents = f a.contents) :
    Refines (heap.set h b) (lists.modify h f) where
  contents := by
    rw [← refines.contents]
    apply List.ext_getElem?
    intro i
    by_cases here : h = i
    · subst here
      rw [List.getElem?_modify_eq, List.getElem?_map, List.getElem?_map, found,
        List.getElem?_set_self (List.getElem?_eq_some_iff.mp found).1]
      exact congrArg some same
    · rw [List.getElem?_modify_ne _ _ here, List.getElem?_map, List.getElem?_map,
        List.getElem?_set_ne here]
  wellFormed c member := by
    rcases List.mem_or_eq_of_mem_set member with member | rfl
    · exact refines.wellFormed c member
    · exact wellFormed

theorem fits_set (refines : Refines heap lists) {h : Nat} (inside : h < heap.length)
    (change : TinoxArray → Except Stop TinoxArray) {f : List Int64 → List Int64}
    {c : Call} (isCall : call available heap c = (Arrays.behind heap h >>= fun a =>
      change a >>= fun b => pure (heap.set h b, none)))
    (noAnswer : c.answer lists = none) (isChange : c.onLists lists = lists.modify h f)
    (changes : ∀ a, a.WellFormed → lists.getD h [] = a.contents →
      Yields (fun b => b.WellFormed ∧ b.contents = f a.contents) (· = .memory) (change a)) :
    Fits available heap lists c := by
  rcases refines.behind inside with ⟨a, isBehind, wellFormed, same, found⟩
  rw [Fits, isCall, isBehind]
  apply ((changes a wellFormed same).mono (fun _ => id) fun _ => Or.inl).bind
  rintro b ⟨bFormed, bContents⟩
  refine ⟨noAnswer.symm, ?_⟩
  rw [isChange]
  exact refines.set found bFormed bContents

theorem fits_append (refines : Refines heap lists) {h : Nat} (inside : h < heap.length)
    {make : TinoxArray → Except Stop TinoxArray} (f : List Int64 → List Int64)
    {c : Call} (isCall : call available heap c = (Arrays.behind heap h >>= fun a =>
      make a >>= fun b => pure (heap ++ [b], none)))
    (noAnswer : c.answer lists = none) (isNew : c.onLists lists = lists ++ [f (lists.getD h [])])
    (makes : ∀ a, a.WellFormed →
      Yields (fun b => b.WellFormed ∧ b.contents = f a.contents) (· = .memory) (make a)) :
    Fits available heap lists c := by
  rcases refines.behind inside with ⟨a, isBehind, wellFormed, same, -⟩
  rw [Fits, isCall, isBehind]
  apply ((makes a wellFormed).mono (fun _ => id) fun _ => Or.inl).bind
  rintro b ⟨bFormed, bContents⟩
  refine ⟨noAnswer.symm, ?_⟩
  rw [isNew, same]
  exact refines.append bFormed bContents

theorem fits (refines : Refines heap lists) {c : Call} (valid : c.Valid heap.length)
    (near : c.Near) : Fits available heap lists c := by
  cases c with
  | new len cap =>
      have created := @tinoxArrayNew_yields available len.toInt cap.toInt near len.toInt_lt cap.toInt_lt
      apply created.bind
      rintro a ⟨wellFormed, -, same⟩
      exact ⟨rfl, refines.append wellFormed same⟩
  | get h idx =>
      rcases refines.behind valid with ⟨a, isBehind, wellFormed, same, -⟩
      rw [Fits, call, isBehind]
      have got : Yields (fun value => 0 ≤ idx.toInt ∧ a.contents[idx.toInt.toNat]? = some value)
          (fun stop => stop = .memory ∨ (stop = .exit ∧ (Call.get h idx).Rejected lists))
          (tinoxArrayGet a idx.toInt) := by
        apply (tinoxArrayGet_yields wellFormed idx.toInt).mono (fun _ => id)
        rintro reason ⟨rfl, outside⟩
        refine Or.inr ⟨rfl, ?_⟩
        rw [Call.Rejected, same, wellFormed.length_contents]
        exact outside
      apply got.bind
      rintro value ⟨nonneg, isValue⟩
      refine ⟨?_, refines⟩
      rw [Call.answer, same, isValue]
  | push h val =>
      exact refines.fits_set valid (fun a => tinoxArrayPush available a val) rfl rfl rfl
        fun a wellFormed _ => tinoxArrayPush_yields wellFormed val
  | pop h =>
      exact refines.fits_set valid (fun a => pure (tinoxArrayPop a)) rfl rfl rfl
        fun a wellFormed _ => tinoxArrayPop_spec wellFormed
  | insert h idx val =>
      refine refines.fits_set valid (fun a => tinoxArrayInsert available a idx.toInt val) rfl rfl
        rfl fun a wellFormed _ => ?_
      have inserts := @tinoxArrayInsert_yields available a wellFormed idx.toInt val
      rw [← wellFormed.length_contents] at inserts
      exact inserts
  | removeAt h idx =>
      refine refines.fits_set valid (fun a => tinoxArrayRemoveAt a idx.toInt) rfl rfl rfl
        fun a wellFormed _ => ?_
      exact (tinoxArrayRemoveAt_yields wellFormed idx.toInt).mono (fun _ => id) fun _ => False.elim
  | slice h start stop =>
      exact refines.fits_append valid
        (fun xs => (xs.take stop.toInt.toNat).drop start.toInt.toNat) rfl rfl rfl
        fun a wellFormed => tinoxArraySlice_yields wellFormed start.toInt_lt stop.le_toInt near
  | reverse h =>
      exact refines.fits_append valid List.reverse rfl rfl rfl fun a wellFormed =>
        tinoxArrayReverse_yields wellFormed

end Refines

theorem Run.refines {available : Nat → Bool} {heap : Heap} {lists : List (List Int64)}
    (run : Run available Call.Near heap lists) : Refines heap lists := by
  induction run with
  | start => exact ⟨rfl, fun _ member => by cases member⟩
  | call _ valid near done ih =>
      have fits : Fits available _ _ _ := ih.fits valid near
      rw [Fits, done] at fits
      exact fits.2

/-- Handles refine lists in every run without new arrays of a negative length and without
slices whose bounds are too far apart. -/
theorem handles_refine (available : Nat → Bool) {heap : Heap} {lists : List (List Int64)}
    (run : Run available Call.Near heap lists) : Refines heap lists ∧
      ∀ c : Call, c.Valid heap.length → c.Near → Fits available heap lists c :=
  ⟨run.refines, fun _ valid near => run.refines.fits valid near⟩

/-- Three zeros, in room for four. -/
private def zeros : Heap :=
  [⟨3, 4, [0, 0, 0, 0]⟩]

/-- The bounds of a slice may lie on both sides of an array. -/
theorem handles_refine_slice : Refines zeros [[0, 0, 0]] ∧
    Fits (fun _ => true) zeros [[0, 0, 0]] (.slice 0 (-7) 9) := by
  have nonneg : (Call.new 3 0).Near := show (0 : Int) ≤ 3 by decide
  have near : (Call.slice 0 (-7) 9).Near := show (-7 : Int) - 2 ^ 63 ≤ 9 by decide
  have run : Run (fun _ => true) Call.Near zeros [[0, 0, 0]] :=
    @Run.call _ _ _ _ (.new 3 0) (zeros, none) Run.start trivial nonneg rfl
  have all := handles_refine (fun _ => true) run
  exact ⟨all.1, all.2 (.slice 0 (-7) 9) Nat.one_pos near⟩

/-- The wrapped distance of the bounds asks for one element, far behind the array. -/
theorem handles_not_refine : ¬ ∀ heap lists, Run (fun _ => true) (fun _ => True) heap lists →
    Refines heap lists ∧
      ∀ c : Call, c.Valid heap.length → Fits (fun _ => true) heap lists c := by
  intro always
  have run : Run (fun _ => true) (fun _ => True) zeros [[0, 0, 0]] :=
    @Run.call _ _ _ _ (.new 3 0) (zeros, none) Run.start trivial trivial rfl
  have fits := (always _ _ run).2 (.slice 0 Int64.maxValue Int64.minValue) Nat.one_pos
  have stops : call (fun _ => true) zeros (.slice 0 Int64.maxValue Int64.minValue) =
      .error .outOfBounds := rfl
  rw [Fits, stops] at fits
  rcases fits with isMemory | ⟨isExit, -⟩
  · cases isMemory
  · cases isExit

end Tinox.Runtime.Arrays
