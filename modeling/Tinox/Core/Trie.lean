import Tinox.Data.Entries
import Mathlib.Data.List.Induction

/-!
# Tries

`Trie` keeps words in nodes that are linked by their bytes.  What is said of `autocomplete` holds in
whatever order a map lists its keys.
-/

namespace Tinox.Core

/-- `TrieNode`. -/
inductive TrieNode where
  | mk (children : List (UInt8 × TrieNode)) (isEnd : Bool)

namespace TrieNode

/-- `TrieNode::new`. -/
def new : TrieNode :=
  .mk [] false

def isEnd : TrieNode → Bool
  | .mk _ isEnd => isEnd

/-- The loop of `Trie::insert`, from a node on. -/
def insert : List UInt8 → TrieNode → TrieNode
  | [], .mk children _ => .mk children true
  | c :: word, .mk children isEnd =>
      .mk (Entries.put children c (insert word ((children.lookup c).getD new))) isEnd

/-- The loops that walk down, which stop where a child is missing. -/
def descend : List UInt8 → TrieNode → Option TrieNode
  | [], node => some node
  | c :: word, .mk children _ => (children.lookup c).bind (descend word)

/-- `Trie::search`. -/
def search (root : TrieNode) (word : List UInt8) : Bool :=
  ((descend word root).map isEnd).getD false

/-- `Trie::startsWith`. -/
def startsWith (root : TrieNode) (front : List UInt8) : Bool :=
  (descend front root).isSome

mutual

/-- `Trie::collectWords`. -/
def collectWords : TrieNode → List UInt8 → List (List UInt8)
  | .mk children isEnd, front =>
      (if isEnd then [front] else []) ++ collectChildren children front

def collectChildren : List (UInt8 × TrieNode) → List UInt8 → List (List UInt8)
  | [], _ => []
  | (c, child) :: children, front =>
      collectWords child (front ++ [c]) ++ collectChildren children front

end

/-- `Trie::autocomplete`. -/
def autocomplete (root : TrieNode) (front : List UInt8) : List (List UInt8) :=
  match descend front root with
  | some node => collectWords node front
  | none => []

def insertAll (words : List (List UInt8)) : TrieNode :=
  words.foldl (fun root word => insert word root) new

/-- No two children of a node have one byte. -/
inductive Distinct : TrieNode → Prop where
  | mk {children : List (UInt8 × TrieNode)} {isEnd : Bool}
      (nodup : (children.map Prod.fst).Nodup) (each : ∀ entry ∈ children, Distinct entry.2) :
      Distinct (.mk children isEnd)

variable {node : TrieNode} {word other front : List UInt8}

theorem search_cons (children : List (UInt8 × TrieNode)) (ends : Bool) (c : UInt8) :
    search (.mk children ends) (c :: word) =
      ((children.lookup c).map fun child => child.search word).getD false := by
  rw [search, descend]
  cases children.lookup c <;> rfl

theorem isEnd_insert : (insert word node).isEnd = (word.isEmpty || node.isEnd) := by
  rcases node with ⟨children, ends⟩
  cases word <;> rfl

theorem search_eq : search node word = ((descend word node).getD new).isEnd := by
  rw [search]
  cases descend word node <;> rfl

/-- Where a walk gets to behind an insertion: into what is inserted, or where it got to before. -/
theorem descend_insert : descend front (insert word node) =
    if front <+: word then some (insert (word.drop front.length) ((descend front node).getD new))
    else descend front node := by
  induction front generalizing word node with
  | nil => exact (if_pos List.nil_prefix).symm
  | cons c front ih =>
      rcases node with ⟨children, ends⟩
      cases word with
      | nil => exact (if_neg fun isPrefix => List.cons_ne_nil _ _ (List.prefix_nil.mp isPrefix)).symm
      | cons d word =>
          rw [insert, descend, descend, Entries.lookup_put]
          by_cases same : c = d
          · rw [if_pos (beq_iff_eq.mpr same), Option.bind_some, ih, same]
            simp only [List.cons_prefix_cons, true_and, List.length_cons, List.drop_succ_cons]
            cases children.lookup d with
            | none => cases front <;> rfl
            | some child => rfl
          · rw [if_neg (mt beq_iff_eq.mp same),
              if_neg fun both => same (List.cons_prefix_cons.mp both).1]

theorem search_insert :
    search (insert word node) other = true ↔ other = word ∨ search node other = true := by
  rw [search_eq, search_eq, descend_insert]
  split
  next isPrefix =>
    rcases isPrefix with ⟨rest, rfl⟩
    rw [List.drop_left, Option.getD_some, isEnd_insert, Bool.or_eq_true, List.isEmpty_iff,
      List.self_eq_append_right]
  next notPrefix =>
    have apart : other ≠ word := fun same => notPrefix (same ▸ List.prefix_rfl)
    exact (or_iff_right apart).symm

theorem startsWith_insert :
    startsWith (insert word node) front = true ↔ front <+: word ∨ startsWith node front = true := by
  rw [startsWith, startsWith, descend_insert]
  split
  next isPrefix => exact iff_of_true rfl (Or.inl isPrefix)
  next notPrefix => exact (or_iff_right notPrefix).symm

theorem Distinct.insert (distinct : Distinct node) : Distinct (insert word node) := by
  induction word generalizing node with
  | nil =>
      cases distinct with
      | mk nodup each => exact .mk nodup each
  | cons c word ih =>
      cases distinct with
      | @mk children ends nodup each =>
          refine .mk ?_ ?_
          · rw [Entries.put, List.map_append, List.nodup_append]
            refine ⟨nodup.sublist (List.filter_sublist.map _), List.pairwise_singleton _ _, ?_⟩
            rintro _ member _ isLast rfl
            rw [List.mem_singleton.mp isLast] at member
            exact Entries.lookup_eq_none.mp (Entries.lookup_filter_self children c) member
          · intro entry member
            rcases List.mem_append.mp member with old | isNew
            · exact each entry (List.mem_filter.mp old).1
            · rw [List.mem_singleton.mp isNew]
              apply ih
              cases isChild : children.lookup c with
              | none => exact .mk List.nodup_nil (List.forall_mem_nil _)
              | some child => exact each _ (Entries.mem_of_lookup isChild)

theorem collected_children {children : List (UInt8 × TrieNode)} (front : List UInt8)
    (nodup : (children.map Prod.fst).Nodup)
    (each : ∀ entry ∈ children, ∀ front, (collectWords entry.2 front).Nodup ∧
      ∀ word, word ∈ collectWords entry.2 front ↔
        ∃ rest, word = front ++ rest ∧ search entry.2 rest = true) :
    (collectChildren children front).Nodup ∧ ∀ word, word ∈ collectChildren children front ↔
      ∃ c rest, word = front ++ c :: rest ∧ search (.mk children false) (c :: rest) = true := by
  induction children with
  | nil =>
      refine ⟨List.nodup_nil, fun word => iff_of_false List.not_mem_nil ?_⟩
      rintro ⟨_, _, -, isWord⟩
      cases isWord
  | cons entry children ih =>
      rcases entry with ⟨c, child⟩
      rw [List.map_cons, List.nodup_cons] at nodup
      rw [List.forall_mem_cons] at each
      rcases each.1 (front ++ [c]) with ⟨here, isHere⟩
      rcases ih nodup.2 each.2 with ⟨later, isLater⟩
      rw [collectChildren, List.nodup_append]
      have notLater {rest : List UInt8} : search (.mk children false) (c :: rest) ≠ true := by
        rw [search_cons, Entries.lookup_eq_none.mpr nodup.1]
        exact Bool.false_ne_true
      refine ⟨⟨here, later, ?_⟩, fun word => ?_⟩
      · rintro _ first _ second rfl
        rcases (isHere _).mp first with ⟨rest, rfl, -⟩
        rcases (isLater _).mp second with ⟨d, rest', same, isWord⟩
        rw [List.append_assoc, List.append_cancel_left_eq, List.singleton_append,
          List.cons.injEq] at same
        rw [← same.1] at isWord
        exact notLater isWord
      · rw [List.mem_append, isHere, isLater]
        constructor
        · rintro (⟨rest, rfl, isWord⟩ | ⟨d, rest, rfl, isWord⟩)
          · refine ⟨c, rest, List.append_assoc _ _ _, ?_⟩
            rw [search_cons, List.lookup_cons_self]
            exact isWord
          · refine ⟨d, rest, rfl, ?_⟩
            have apart : d ≠ c := fun same => notLater (same ▸ isWord)
            rw [search_cons] at isWord ⊢
            rw [List.lookup_cons, beq_eq_false_iff_ne.mpr apart]
            exact isWord
        · rintro ⟨d, rest, rfl, isWord⟩
          rw [search_cons, List.lookup_cons] at isWord
          by_cases same : d = c
          · rw [beq_iff_eq.mpr same] at isWord
            exact Or.inl ⟨rest, by rw [same, List.append_assoc]; rfl, isWord⟩
          · rw [beq_eq_false_iff_ne.mpr same] at isWord
            exact Or.inr ⟨d, rest, rfl, by rw [search_cons]; exact isWord⟩

/-- The words below a node, each once. -/
theorem Distinct.collected (distinct : Distinct node) (front : List UInt8) :
    (collectWords node front).Nodup ∧ ∀ word, word ∈ collectWords node front ↔
      ∃ rest, word = front ++ rest ∧ search node rest = true := by
  induction distinct generalizing front with
  | @mk children ends nodup _ ih =>
      rcases collected_children front nodup ih with ⟨once, isChild⟩
      rw [collectWords, List.nodup_append]
      refine ⟨⟨by cases ends <;> simp, once, ?_⟩, fun word => ?_⟩
      · rintro word isFront _ member rfl
        rcases (isChild _).mp member with ⟨c, rest, same, -⟩
        have isShort : word = front := by cases ends <;> simp_all
        rw [isShort, List.self_eq_append_right] at same
        exact List.cons_ne_nil _ _ same
      · rw [List.mem_append, isChild]
        constructor
        · rintro (isFront | ⟨c, rest, isWord⟩)
          · cases ends with
            | false => cases isFront
            | true => exact ⟨[], by rw [List.mem_singleton.mp isFront, List.append_nil], rfl⟩
          · exact ⟨c :: rest, isWord⟩
        · rintro ⟨rest, rfl, isWord⟩
          cases rest with
          | nil =>
              have isEnd : ends = true := isWord
              rw [isEnd, if_pos rfl, List.append_nil]
              exact Or.inl List.mem_cons_self
          | cons c rest => exact Or.inr ⟨c, rest, rfl, isWord⟩

theorem descend_append (front word : List UInt8) (node : TrieNode) :
    descend (front ++ word) node = (descend front node).bind (descend word) := by
  induction front generalizing node with
  | nil => rfl
  | cons c front ih =>
      rcases node with ⟨children, ends⟩
      rw [List.cons_append, descend, descend, Option.bind_assoc]
      exact congrArg _ (funext ih)

theorem Distinct.descend {inner : TrieNode} (distinct : Distinct node)
    (isInner : TrieNode.descend front node = some inner) : Distinct inner := by
  induction front generalizing node with
  | nil => exact Option.some.inj isInner ▸ distinct
  | cons c front ih =>
      cases distinct with
      | mk _ each =>
          rcases Option.bind_eq_some_iff.mp isInner with ⟨child, isChild, isInner⟩
          exact ih (each _ (Entries.mem_of_lookup isChild)) isInner

theorem search_append : search node (front ++ word) =
    ((descend front node).map fun inner => inner.search word).getD false := by
  rw [search, descend_append]
  cases descend front node <;> rfl

/-- The words of a trie are those that have been inserted, which `autocomplete` lists once each. -/
theorem insertAll_spec (words : List (List UInt8)) (word front : List UInt8) :
    (search (insertAll words) word = true ↔ word ∈ words) ∧
    (startsWith (insertAll words) front = true ↔ front = [] ∨ ∃ word ∈ words, front <+: word) ∧
    (autocomplete (insertAll words) front).Nodup ∧
    ∀ word, word ∈ autocomplete (insertAll words) front ↔ word ∈ words ∧ front <+: word := by
  have all : ∀ words, (∀ word, search (insertAll words) word = true ↔ word ∈ words) ∧
      (startsWith (insertAll words) front = true ↔ front = [] ∨ ∃ word ∈ words, front <+: word) ∧
      Distinct (insertAll words) := by
    intro words
    induction words using List.reverseRecOn with
    | nil =>
        refine ⟨fun word => iff_of_false ?_ List.not_mem_nil, ?_, .mk List.nodup_nil (List.forall_mem_nil _)⟩
        · cases word <;> exact Bool.false_ne_true
        · cases front with
          | nil => exact iff_of_true rfl (Or.inl rfl)
          | cons c front => exact iff_of_false Bool.false_ne_true (by simp)
    | append_singleton words last ih =>
        have isLast : insertAll (words ++ [last]) = insert last (insertAll words) := by
          rw [insertAll, List.foldl_concat]
          rfl
        rw [isLast]
        refine ⟨fun word => ?_, ?_, ih.2.2.insert⟩
        · rw [search_insert, ih.1, List.mem_append, List.mem_singleton, or_comm]
        · rw [startsWith_insert, ih.2.1]
          simp [or_and_right, exists_or, or_comm, or_left_comm]
  rcases all words with ⟨isSearched, isStarted, distinct⟩
  refine ⟨isSearched word, isStarted, ?_⟩
  have isWord (rest : List UInt8) : front ++ rest ∈ words ↔
      ((descend front (insertAll words)).map fun inner => inner.search rest).getD false = true := by
    rw [← isSearched, search_append]
  rw [autocomplete]
  cases found : descend front (insertAll words) with
  | none =>
      refine ⟨List.nodup_nil, fun word => iff_of_false List.not_mem_nil ?_⟩
      rintro ⟨member, rest, rfl⟩
      rw [isWord, found] at member
      exact Bool.false_ne_true member
  | some inner =>
      rcases (distinct.descend found).collected front with ⟨once, isCollected⟩
      refine ⟨once, fun word => (isCollected word).trans ?_⟩
      rw [found] at isWord
      constructor
      · rintro ⟨rest, rfl, isRest⟩
        exact ⟨(isWord rest).mpr isRest, List.prefix_append front rest⟩
      · rintro ⟨member, rest, rfl⟩
        exact ⟨rest, rfl, (isWord rest).mp member⟩

end TrieNode

end Tinox.Core
