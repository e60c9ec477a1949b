import Tinox.Search.PostOrder

/-!
# Guarded traversals

A depth-first traversal that visits one node of every key.  What is done at a node changes a state
and says which nodes come next.
-/

namespace Guarded

open PostOrder (unvisited unvisited_le unvisited_cons)

variable {Node Key State : Type} (key : Node → Key)
  (act : Node → State → State × List Node)

/-- A property of nodes and an invariant that every visit preserves. -/
structure Preserves (within : Node → Prop) (keeps : List Key → State → Prop) : Prop where
  state : ∀ node visited state, within node → key node ∉ visited → keeps visited state →
    keeps (key node :: visited) (act node state).1
  next : ∀ node visited state, within node → key node ∉ visited → keeps visited state →
    ∀ child ∈ (act node state).2, within child

/-- The nodes that were visited, each with the state that it found. -/
structure Explored (roots : List Node) (before : List Key) (log : List (Node × State))
    (after : List Key) : Prop where
  visited_iff : ∀ k, k ∈ after ↔ k ∈ before ∨ ∃ entry ∈ log, key entry.1 = k
  roots_visited : ∀ root ∈ roots, key root ∈ after
  next_visited : ∀ entry ∈ log, ∀ child ∈ (act entry.1 entry.2).2, key child ∈ after
  one : ∀ entry ∈ log, ∀ other ∈ log, key entry.1 = key other.1 → entry = other
  new : ∀ entry ∈ log, key entry.1 ∉ before

variable {key act}

variable {log : List (Node × State)}

theorem Explored.subset {roots : List Node} {before after : List Key}
    (explored : Explored key act roots before log after) : ∀ k ∈ before, k ∈ after :=
  fun k member => (explored.visited_iff k).mpr (Or.inl member)

theorem Explored.nil (before : List Key) : Explored key act [] before [] before where
  visited_iff k := by simp
  roots_visited := nofun
  next_visited := nofun
  one := nofun
  new := nofun

theorem Explored.append {roots others : List Node} {before middle after : List Key}
    {more : List (Node × State)} (first : Explored key act roots before log middle)
    (second : Explored key act others middle more after) :
    Explored key act (roots ++ others) before (log ++ more) after where
  visited_iff k := by
    rw [second.visited_iff, first.visited_iff, or_assoc]
    apply or_congr_right
    constructor
    · rintro (⟨entry, member, isKey⟩ | ⟨entry, member, isKey⟩)
      · exact ⟨entry, List.mem_append_left _ member, isKey⟩
      · exact ⟨entry, List.mem_append_right _ member, isKey⟩
    · rintro ⟨entry, member, isKey⟩
      rcases List.mem_append.mp member with early | late
      · exact Or.inl ⟨entry, early, isKey⟩
      · exact Or.inr ⟨entry, late, isKey⟩
  roots_visited root member := by
    rcases List.mem_append.mp member with early | late
    · exact second.subset _ (first.roots_visited root early)
    · exact second.roots_visited root late
  next_visited entry member child isNext := by
    rcases List.mem_append.mp member with early | late
    · exact second.subset _ (first.next_visited entry early child isNext)
    · exact second.next_visited entry late child isNext
  one := by
    intro entry member other memberOther same
    rcases List.mem_append.mp member with early | late
    · rcases List.mem_append.mp memberOther with early' | late'
      · exact first.one entry early other early' same
      · exact absurd ((first.visited_iff _).mpr (Or.inr ⟨entry, early, same⟩)) (second.new other late')
    · rcases List.mem_append.mp memberOther with early' | late'
      · exact absurd ((first.visited_iff _).mpr (Or.inr ⟨other, early', same.symm⟩))
          (second.new entry late)
      · exact second.one entry late other late' same
  new entry member := by
    rcases List.mem_append.mp member with early | late
    · exact first.new entry early
    · exact fun old => second.new entry late (first.subset _ old)

/-- A node that has been visited is passed over. -/
theorem Explored.skip {before : List Key} {node : Node} (old : key node ∈ before) :
    Explored key act [node] before [] before :=
  { Explored.nil before with
    roots_visited := by
      intro root member
      rw [List.mem_singleton.mp member]
      exact old }

/-- A new node and the nodes that come next. -/
theorem Explored.node {node : Node} {state : State} {before after : List Key}
    (isNew : key node ∉ before)
    (next : Explored key act (act node state).2 (key node :: before) log after) :
    Explored key act [node] before ((node, state) :: log) after where
  visited_iff k := by
    rw [next.visited_iff, List.mem_cons, List.exists_mem_cons_iff, or_assoc, or_left_comm, eq_comm]
  roots_visited root member := by
    rw [List.mem_singleton.mp member]
    exact next.subset _ List.mem_cons_self
  next_visited := by
    intro entry member
    rcases List.mem_cons.mp member with rfl | later
    · exact next.roots_visited
    · exact next.next_visited entry later
  one := by
    intro entry member other memberOther same
    rcases List.mem_cons.mp member with rfl | later
    · rcases List.mem_cons.mp memberOther with rfl | later'
      · rfl
      · exact absurd (List.mem_cons.mpr (Or.inl same.symm)) (next.new other later')
    · rcases List.mem_cons.mp memberOther with rfl | later'
      · exact absurd (List.mem_cons.mpr (Or.inl same)) (next.new entry later)
      · exact next.one entry later other later' same
  new := by
    intro entry member
    rcases List.mem_cons.mp member with rfl | later
    · exact isNew
    · exact fun old => next.new entry later (List.mem_cons_of_mem _ old)

variable [DecidableEq Key] (key act)

/-- Visit a node, unless one of its key has been visited, and then the nodes that come next. -/
def visit : Nat → List Key × State → Node → Option (List Key × State)
  | 0, _, _ => none
  | fuel + 1, (visited, state), node =>
      if key node ∈ visited then some (visited, state)
      else (act node state).2.foldlM (visit fuel) (key node :: visited, (act node state).1)

/-- Visit nodes one after the other. -/
def visitAll (fuel : Nat) (nodes : List Node) (before : List Key × State) :
    Option (List Key × State) :=
  nodes.foldlM (visit key act fuel) before

variable {before after : List Key × State} {fuel : Nat} {nodes : List Node}

theorem visitAll_cons {node : Node}
    (done : visitAll key act fuel (node :: nodes) before = some after) :
    ∃ middle, visit key act fuel before node = some middle ∧
      visitAll key act fuel nodes middle = some after := by
  rw [visitAll, List.foldlM_cons] at done
  exact Option.bind_eq_some_iff.mp done

variable {key act}

section Preserves

variable {within : Node → Prop} {keeps : List Key → State → Prop}

/-- Entries that found what is preserved. -/
def Found (key : Node → Key) (within : Node → Prop) (keeps : List Key → State → Prop)
    (log : List (Node × State)) : Prop :=
  ∀ entry ∈ log, within entry.1 ∧ ∃ visited, key entry.1 ∉ visited ∧ keeps visited entry.2

theorem visitAll_of_visit
    (each : ∀ {before after : List Key × State} {node : Node}, visit key act fuel before node = some after → within node → keeps before.1 before.2 → keeps after.1 after.2 ∧ ∃ log, Explored key act [node] before.1 log after.1 ∧ Found key within keeps log)
    (done : visitAll key act fuel nodes before = some after) (inside : ∀ node ∈ nodes, within node)
    (kept : keeps before.1 before.2) : keeps after.1 after.2 ∧
      ∃ log, Explored key act nodes before.1 log after.1 ∧ Found key within keeps log := by
  induction nodes generalizing before with
  | nil =>
      cases done
      exact ⟨kept, [], Explored.nil _, nofun⟩
  | cons node nodes ih =>
      rcases visitAll_cons key act done with ⟨middle, here, later⟩
      rw [List.forall_mem_cons] at inside
      rcases each here inside.1 kept with ⟨keptMiddle, log, first, found⟩
      rcases ih later inside.2 keptMiddle with ⟨keptAfter, more, second, foundMore⟩
      exact ⟨keptAfter, log ++ more, first.append second, List.forall_mem_append.mpr ⟨found, foundMore⟩⟩

/-- What a visit preserves and explores. -/
theorem visit_spec (preserves : Preserves key act within keeps) {node : Node}
    (done : visit key act fuel before node = some after) (inside : within node)
    (kept : keeps before.1 before.2) : keeps after.1 after.2 ∧
      ∃ log, Explored key act [node] before.1 log after.1 ∧ Found key within keeps log := by
  induction fuel generalizing before after node with
  | zero => cases done
  | succ fuel ih =>
      rcases before with ⟨visited, state⟩
      rw [visit] at done
      by_cases old : key node ∈ visited
      · rw [if_pos old] at done
        cases done
        exact ⟨kept, [], Explored.skip old, nofun⟩
      · rw [if_neg old] at done
        rcases visitAll_of_visit ih done (preserves.next node visited state inside old kept)
          (preserves.state node visited state inside old kept) with ⟨keptAfter, log, explored, found⟩
        refine ⟨keptAfter, (node, state) :: log, explored.node old, ?_⟩
        exact List.forall_mem_cons.mpr ⟨⟨inside, visited, old, kept⟩, found⟩

/-- What a traversal preserves and explores. -/
theorem visitAll_spec (preserves : Preserves key act within keeps)
    (done : visitAll key act fuel nodes before = some after) (inside : ∀ node ∈ nodes, within node)
    (kept : keeps before.1 before.2) : keeps after.1 after.2 ∧
      ∃ log, Explored key act nodes before.1 log after.1 ∧ Found key within keeps log :=
  visitAll_of_visit (fun done => visit_spec preserves done) done inside kept

variable {keys : Finset Key}

theorem visitAll_isSome_of_visit {bound : Nat} (preserves : Preserves key act within keeps)
    (each : ∀ {before : List Key × State} {node : Node}, within node → keeps before.1 before.2 → unvisited keys before.1 < bound → (visit key act fuel before node).isSome = true)
    (inside : ∀ node ∈ nodes, within node) (kept : keeps before.1 before.2)
    (few : unvisited keys before.1 < bound) :
    (visitAll key act fuel nodes before).isSome = true := by
  induction nodes generalizing before with
  | nil => rfl
  | cons node nodes ih =>
      rw [List.forall_mem_cons] at inside
      rcases Option.isSome_iff_exists.mp (each inside.1 kept few) with ⟨middle, here⟩
      rcases visit_spec preserves here inside.1 kept with ⟨keptMiddle, log, explored, _⟩
      rw [visitAll, List.foldlM_cons, here]
      exact ih inside.2 keptMiddle (Nat.lt_of_le_of_lt (unvisited_le keys explored.subset) few)

/-- Fuel for every key that has not been visited is enough. -/
theorem visit_isSome (preserves : Preserves key act within keeps)
    (finite : ∀ node, within node → key node ∈ keys) {node : Node} (inside : within node)
    (kept : keeps before.1 before.2) (few : unvisited keys before.1 < fuel) :
    (visit key act fuel before node).isSome = true := by
  induction fuel generalizing before node with
  | zero => exact absurd few (Nat.not_lt_zero _)
  | succ fuel ih =>
      rcases before with ⟨visited, state⟩
      rw [visit]
      by_cases old : key node ∈ visited
      · rw [if_pos old]
        rfl
      · rw [if_neg old]
        have fewer := unvisited_cons (finite node inside) old
        exact visitAll_isSome_of_visit preserves ih
          (preserves.next node visited state inside old kept)
          (preserves.state node visited state inside old kept)
          (Nat.lt_of_lt_of_le fewer (Nat.le_of_lt_succ few))

/-- A traversal returns when there are more steps than keys. -/
theorem visitAll_isSome (preserves : Preserves key act within keeps)
    (finite : ∀ node, within node → key node ∈ keys) (enough : keys.card < fuel)
    (inside : ∀ node ∈ nodes, within node) (kept : keeps before.1 before.2) :
    (visitAll key act fuel nodes before).isSome = true :=
  visitAll_isSome_of_visit preserves (visit_isSome preserves finite) inside kept
    (Nat.lt_of_le_of_lt (Finset.card_le_card Finset.sdiff_subset) enough)

end Preserves

section Simulation

variable {State' : Type} {act' : Node → State' → State' × List Node} {within : Node → Prop}
  {broken : State → Prop} {related : List Key → State → State' → Prop}

/-- Two traversals that find the same nodes next, as long as the first one does not break. -/
structure Simulates (key : Node → Key) (act : Node → State → State × List Node)
    (act' : Node → State' → State' × List Node) (within : Node → Prop) (broken : State → Prop)
    (related : List Key → State → State' → Prop) : Prop where
  persists : ∀ node state, broken state → broken (act node state).1
  state : ∀ node visited state state', within node → key node ∉ visited →
    related visited state state' → ¬ broken (act node state).1 →
    related (key node :: visited) (act node state).1 (act' node state').1
  same : ∀ node visited state state', within node → key node ∉ visited →
    related visited state state' → ¬ broken (act node state).1 →
    (act node state).2 = (act' node state').2
  next : ∀ node state', within node → ∀ child ∈ (act' node state').2, within child

variable {state' : State'}

omit [DecidableEq Key] in
theorem Simulates.preserves (simulates : Simulates key act act' within broken related) :
    Preserves key act (fun _ => True) (fun _ => broken) where
  state node _ state _ _ isBroken := simulates.persists node state isBroken
  next _ _ _ _ _ _ _ _ := trivial

theorem visitAll_simulated_of_visit (simulates : Simulates key act act' within broken related)
    (each : ∀ {before after : List Key × State} {state' : State'} {node : Node}, visit key act fuel before node = some after → ¬ broken after.2 → within node → related before.1 before.2 state' → ∃ final, visit key act' fuel (before.1, state') node = some (after.1, final) ∧ related after.1 after.2 final)
    (done : visitAll key act fuel nodes before = some after) (whole : ¬ broken after.2)
    (inside : ∀ node ∈ nodes, within node) (isRelated : related before.1 before.2 state') :
    ∃ final, visitAll key act' fuel nodes (before.1, state') = some (after.1, final) ∧
      related after.1 after.2 final := by
  induction nodes generalizing before state' with
  | nil =>
      cases done
      exact ⟨state', rfl, isRelated⟩
  | cons node nodes ih =>
      rcases visitAll_cons key act done with ⟨middle, here, later⟩
      have wholeMiddle : ¬ broken middle.2 := fun isBroken =>
        whole (visitAll_spec simulates.preserves later (fun _ _ => trivial) isBroken).1
      rw [List.forall_mem_cons] at inside
      rcases each here wholeMiddle inside.1 isRelated with ⟨middle', here', relatedMiddle⟩
      rcases ih later inside.2 relatedMiddle with ⟨final, later', relatedFinal⟩
      refine ⟨final, ?_, relatedFinal⟩
      rw [visitAll, List.foldlM_cons, here']
      exact later'

theorem visit_simulated (simulates : Simulates key act act' within broken related) {node : Node}
    (done : visit key act fuel before node = some after) (whole : ¬ broken after.2)
    (inside : within node) (isRelated : related before.1 before.2 state') :
    ∃ final, visit key act' fuel (before.1, state') node = some (after.1, final) ∧
      related after.1 after.2 final := by
  induction fuel generalizing before after state' node with
  | zero => cases done
  | succ fuel ih =>
      rcases before with ⟨visited, state⟩
      rw [visit] at done
      rw [visit]
      by_cases old : key node ∈ visited
      · rw [if_pos old] at done
        cases done
        exact ⟨state', if_pos old, isRelated⟩
      · rw [if_neg old] at done
        rw [if_neg old]
        have wholeHere : ¬ broken (act node state).1 := fun isBroken =>
          whole (visitAll_spec simulates.preserves done (fun _ _ => trivial) isBroken).1
        rw [simulates.same node visited state state' inside old isRelated wholeHere] at done
        exact visitAll_simulated_of_visit simulates ih done whole (simulates.next node state' inside)
          (simulates.state node visited state state' inside old isRelated wholeHere)

theorem visitAll_simulated (simulates : Simulates key act act' within broken related)
    (done : visitAll key act fuel nodes before = some after) (whole : ¬ broken after.2)
    (inside : ∀ node ∈ nodes, within node) (isRelated : related before.1 before.2 state') :
    ∃ final, visitAll key act' fuel nodes (before.1, state') = some (after.1, final) ∧
      related after.1 after.2 final :=
  visitAll_simulated_of_visit simulates
    (fun done whole inside isRelated => visit_simulated simulates done whole inside isRelated)
    done whole inside isRelated

end Simulation

end Guarded
