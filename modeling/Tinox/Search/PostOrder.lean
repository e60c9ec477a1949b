import Mathlib.Logic.Relation
import Mathlib.Data.List.Nodup
import Mathlib.Data.Finset.Card

/-!
# Depth-first traversals in post-order

A traversal of a graph whose nodes must be loaded before their edges are known.
Loading and finding the targets of an edge may fail.  Each node puts out a list
of its own, behind the lists of all nodes it leads to.
-/

namespace PostOrder

/-- What is known of a loaded node: its edges, each with its targets or an error,
and its own output. -/
structure Contents (Node Error Item : Type) where
  edges : List (Except Error (List Node))
  own : List Item

variable {Node Error Item : Type}

/-- The output and the visited nodes; an error; or `none`, if fuel ran out. -/
abbrev Result (Node Error Item : Type) : Type :=
  Option (Except Error (List Item × List Node))

variable {final : List Item × List Node}

namespace Result

/-- The next part of a traversal, behind a successful one. -/
def next (result : Result Node Error Item)
    (rest : List Item → List Node → Result Node Error Item) : Result Node Error Item :=
  match result with
  | none => none
  | some (.error e) => some (.error e)
  | some (.ok (output, visited)) => rest output visited

variable {result : Result Node Error Item} {rest : List Item → List Node → Result Node Error Item}

theorem next_eq_ok (done : result.next rest = some (.ok final)) :
    ∃ output visited, result = some (.ok (output, visited)) ∧
      rest output visited = some (.ok final) := by
  rcases result with _ | _ | ⟨output, visited⟩
  · cases done
  · cases done
  · exact ⟨output, visited, rfl, done⟩

theorem next_isSome (some_ : result.isSome)
    (someRest : ∀ output visited, result = some (.ok (output, visited)) → (rest output visited).isSome) :
    (result.next rest).isSome := by
  rcases result with _ | _ | ⟨output, visited⟩
  · cases some_
  · rfl
  · exact someRest output visited rfl

theorem next_congr {rest' : List Item → List Node → Result Node Error Item}
    (same : ∀ output visited, result = some (.ok (output, visited)) → rest output visited = rest' output visited) :
    result.next rest = result.next rest' := by
  rcases result with _ | _ | ⟨output, visited⟩
  · rfl
  · rfl
  · exact same output visited rfl

end Result

section Visit

variable [DecidableEq Node] (load : Node → Except Error (Contents Node Error Item))

section Lists

variable (visit : Contents Node Error Item → List Node → Result Node Error Item)

/-- The targets of one edge. -/
def visitTargets : List Node → List Item → List Node → Result Node Error Item
  | [], output, visited => some (.ok (output, visited))
  | node :: nodes, output, visited =>
      if node ∈ visited then visitTargets nodes output visited
      else
        match load node with
        | .error e => some (.error e)
        | .ok contents =>
            (visit contents (node :: visited)).next fun inner visited =>
              visitTargets nodes (output ++ inner) visited

/-- Edges, one after the other. -/
def visitEdges : List (Except Error (List Node)) → List Item → List Node →
    Result Node Error Item
  | [], output, visited => some (.ok (output, visited))
  | .error e :: _, _, _ => some (.error e)
  | .ok nodes :: edges, output, visited =>
      (visitTargets load visit nodes output visited).next fun output visited =>
        visitEdges edges output visited

end Lists

/-- A loaded node: what its edges lead to, and its own output. -/
def visit : Nat → Contents Node Error Item → List Node → Result Node Error Item
  | 0, _, _ => none
  | fuel + 1, contents, visited =>
      (visitEdges load (visit fuel) contents.edges [] visited).next fun output visited =>
        some (.ok (output ++ contents.own, visited))

end Visit

theorem split_append {Entry : Type} {first second front back : List Entry} {entry : Entry}
    (same : first ++ second = front ++ entry :: back) :
    (∃ rest, first = front ++ entry :: rest) ∨
      ∃ rest, front = first ++ rest ∧ second = rest ++ entry :: back := by
  rcases List.append_eq_append_iff.mp same with ⟨rest, front_, second_⟩ | ⟨rest, first_, back_⟩
  · exact .inr ⟨rest, front_, second_⟩
  · cases rest with
    | nil =>
        rw [List.append_nil] at first_
        exact .inr ⟨[], by rw [first_, List.append_nil], back_.symm⟩
    | cons head rest =>
        rw [List.cons_append, List.cons.injEq] at back_
        rcases back_ with ⟨rfl, -⟩
        exact .inl ⟨rest, first_⟩

theorem split_concat {Entry : Type} {list front back : List Entry} {last entry : Entry}
    (same : list ++ [last] = front ++ entry :: back) :
    (∃ rest, list = front ++ entry :: rest) ∨ (front = list ∧ entry = last) := by
  rcases split_append same with first | ⟨rest, front_, second⟩
  · exact .inl first
  · cases rest with
    | nil =>
        rw [List.nil_append, List.cons.injEq] at second
        rw [List.append_nil] at front_
        exact .inr ⟨front_, second.1.symm⟩
    | cons head rest =>
        rw [List.cons_append, List.cons.injEq] at second
        exact absurd second.2 (by simp)

section Graph

variable (load : Node → Except Error (Contents Node Error Item))

/-- The targets of a node's edges. -/
def Contents.Leads (contents : Contents Node Error Item) (target : Node) : Prop :=
  ∃ nodes, .ok nodes ∈ contents.edges ∧ target ∈ nodes

/-- The edges between nodes. -/
def Edge (node target : Node) : Prop :=
  ∃ contents, load node = .ok contents ∧ contents.Leads target

/-- Paths. -/
def Reaches : Node → Node → Prop :=
  Relation.ReflTransGen (Edge load)

/-- The output of a node. -/
def ownOutput (node : Node) : List Item :=
  match load node with
  | .ok contents => contents.own
  | .error _ => []

/-- A node with all targets in a set. -/
def Settled (visited : List Node) (contents : Contents Node Error Item) : Prop :=
  ∀ edge ∈ contents.edges, ∃ nodes, edge = .ok nodes ∧ ∀ target ∈ nodes, target ∈ visited

/-- A traversal from some nodes visits new nodes in a certain order. -/
structure Visits (roots before order : List Node) (output : List Item) (after : List Node) :
    Prop where
  output_eq : output = order.flatMap (ownOutput load)
  mem_after : ∀ node, node ∈ after ↔ node ∈ before ∨ node ∈ order
  roots_after : ∀ root ∈ roots, root ∈ after
  nodup : order.Nodup
  new : ∀ node ∈ order, node ∉ before
  settled : ∀ node ∈ order, ∃ contents, load node = .ok contents ∧ Settled after contents
  reached : ∀ node ∈ order, ∃ root ∈ roots, Reaches load root node
  /-- Targets come first, unless they were visited before or lead back. -/
  targets : ∀ front node back, order = front ++ node :: back → ∀ target, Edge load node target →
    target ∈ before ∨ target ∈ front ∨ Reaches load target node

end Graph

variable {before after : List Node} {output : List Item}

namespace Visits

variable {load : Node → Except Error (Contents Node Error Item)}

theorem nil (before : List Node) : Visits load [] before [] [] before where
  output_eq := rfl
  mem_after node := by simp
  roots_after root member := by cases member
  nodup := List.nodup_nil
  new node member := by cases member
  settled node member := by cases member
  reached node member := by cases member
  targets front node back empty := by cases front <;> cases empty

/-- A visited node is passed over. -/
theorem skip {node : Node} (visited : node ∈ before) : Visits load [node] before [] [] before :=
  { nil before with
    roots_after := by
      intro root member
      rw [List.mem_singleton] at member
      rw [member]
      exact visited
    reached := by
      intro other member
      cases member }

theorem subset {roots order : List Node} (visits : Visits load roots before order output after) :
    ∀ node ∈ before, node ∈ after :=
  fun node member => (visits.mem_after node).mpr (.inl member)

theorem append {roots roots' order middle order' : List Node} {output' : List Item}
    (first : Visits load roots before order output middle)
    (second : Visits load roots' middle order' output' after) :
    Visits load (roots ++ roots') before (order ++ order') (output ++ output') after where
  output_eq := by
    rw [first.output_eq, second.output_eq, List.flatMap_append]
  mem_after node := by
    rw [second.mem_after, first.mem_after, List.mem_append, or_assoc]
  roots_after root member := by
    rcases List.mem_append.mp member with early | late
    · exact second.subset root (first.roots_after root early)
    · exact second.roots_after root late
  nodup := by
    rw [List.nodup_append]
    refine ⟨first.nodup, second.nodup, ?_⟩
    rintro node early _ late rfl
    exact second.new node late ((first.mem_after node).mpr (.inr early))
  new node member := by
    rcases List.mem_append.mp member with early | late
    · exact first.new node early
    · exact fun old => second.new node late (first.subset node old)
  settled node member := by
    rcases List.mem_append.mp member with early | late
    · rcases first.settled node early with ⟨contents, loaded, settled⟩
      refine ⟨contents, loaded, ?_⟩
      intro edge memberEdge
      rcases settled edge memberEdge with ⟨nodes, found, inside⟩
      exact ⟨nodes, found, fun target memberTarget =>
        second.subset target (inside target memberTarget)⟩
    · exact second.settled node late
  reached node member := by
    rcases List.mem_append.mp member with early | late
    · rcases first.reached node early with ⟨root, memberRoot, path⟩
      exact ⟨root, List.mem_append_left roots' memberRoot, path⟩
    · rcases second.reached node late with ⟨root, memberRoot, path⟩
      exact ⟨root, List.mem_append_right roots memberRoot, path⟩
  targets := by
    intro front node back split target edge
    rcases split_append split with ⟨rest, first_⟩ | ⟨rest, rfl, second_⟩
    · exact first.targets front node rest first_ target edge
    · rcases second.targets rest node back second_ target edge with middle | early | path
      · rcases (first.mem_after target).mp middle with old | early
        · exact .inl old
        · exact .inr (.inl (List.mem_append_left rest early))
      · exact .inr (.inl (List.mem_append_right order early))
      · exact .inr (.inr path)

/-- A new node comes behind everything that it leads to. -/
theorem node {roots before order after : List Node} {output : List Item} {node : Node}
    {contents : Contents Node Error Item} (loaded : load node = .ok contents)
    (new : node ∉ before) (leads : ∀ root ∈ roots, contents.Leads root)
    (settled : Settled after contents)
    (visits : Visits load roots (node :: before) order output after) :
    Visits load [node] before (order ++ [node]) (output ++ contents.own) after where
  output_eq := by
    have own : ownOutput load node = contents.own := by rw [ownOutput, loaded]
    rw [visits.output_eq, List.flatMap_append, List.flatMap_singleton, own]
  mem_after other := by
    rw [visits.mem_after, List.mem_cons, List.mem_append, List.mem_singleton, or_assoc,
      or_left_comm]
    exact or_congr_right or_comm
  roots_after root member := by
    rw [List.mem_singleton] at member
    rw [member]
    exact visits.subset node List.mem_cons_self
  nodup := by
    rw [List.nodup_append]
    refine ⟨visits.nodup, List.nodup_singleton node, ?_⟩
    rintro other member _ last rfl
    rw [List.mem_singleton] at last
    rw [last] at member
    exact visits.new node member List.mem_cons_self
  new other member := by
    rcases List.mem_append.mp member with early | last
    · exact fun old => visits.new other early (List.mem_cons_of_mem node old)
    · rw [List.mem_singleton] at last
      rw [last]
      exact new
  settled other member := by
    rcases List.mem_append.mp member with early | last
    · exact visits.settled other early
    · rw [List.mem_singleton] at last
      rw [last]
      exact ⟨contents, loaded, settled⟩
  reached other member := by
    refine ⟨node, List.mem_singleton_self node, ?_⟩
    rcases List.mem_append.mp member with early | last
    · rcases visits.reached other early with ⟨root, memberRoot, path⟩
      exact Relation.ReflTransGen.head ⟨contents, loaded, leads root memberRoot⟩ path
    · rw [List.mem_singleton] at last
      rw [last]
      exact Relation.ReflTransGen.refl
  targets := by
    intro front other back split target edge
    rcases split_concat split with ⟨rest, order_⟩ | ⟨rfl, rfl⟩
    · rcases visits.targets front other rest order_ target edge with old | early | path
      · rcases List.mem_cons.mp old with rfl | old
        · have member : other ∈ order := by
            rw [order_]
            exact List.mem_append_right front List.mem_cons_self
          rcases visits.reached other member with ⟨root, memberRoot, path⟩
          exact .inr (.inr
            (Relation.ReflTransGen.head ⟨contents, loaded, leads root memberRoot⟩ path))
        · exact .inl old
      · exact .inr (.inl early)
      · exact .inr (.inr path)
    · -- The node itself comes last.
      rcases edge with ⟨found, foundLoaded, nodes, memberNodes, memberTarget⟩
      rw [loaded] at foundLoaded
      cases foundLoaded
      rcases settled _ memberNodes with ⟨_, same, within⟩
      cases same
      rcases (visits.mem_after target).mp (within target memberTarget) with old | early
      · rcases List.mem_cons.mp old with rfl | old
        · exact .inr (.inr Relation.ReflTransGen.refl)
        · exact .inl old
      · exact .inr (.inl early)

end Visits

variable {fuel : Nat} {contents : Contents Node Error Item}

section Success

variable [DecidableEq Node] {load : Node → Except Error (Contents Node Error Item)}

/-- The result of a traversal from a node. -/
def Finished (load : Node → Except Error (Contents Node Error Item))
    (contents : Contents Node Error Item) (before : List Node) (final : List Item × List Node) :
    Prop :=
  ∃ roots order output, final.1 = output ++ contents.own ∧
    (∀ root ∈ roots, contents.Leads root) ∧ Visits load roots before order output final.2 ∧
    Settled final.2 contents

section Lists

variable {visit : Contents Node Error Item → List Node → Result Node Error Item}

theorem visitTargets_visits
    (finished : ∀ contents before final, visit contents before = some (.ok final) →
      Finished load contents before final)
    {nodes before after : List Node} {output out : List Item}
    (done : visitTargets load visit nodes output before = some (.ok (out, after))) :
    ∃ order new, out = output ++ new ∧ Visits load nodes before order new after := by
  induction nodes generalizing output before with
  | nil =>
      cases done
      exact ⟨[], [], (List.append_nil _).symm, Visits.nil _⟩
  | cons node nodes ih =>
      rw [visitTargets] at done
      by_cases old : node ∈ before
      · rw [if_pos old] at done
        rcases ih done with ⟨order, new, same, visits⟩
        exact ⟨order, new, same, (Visits.skip old).append visits⟩
      · rw [if_neg old] at done
        cases loaded : load node with
        | error e =>
            rw [loaded] at done
            cases done
        | ok contents =>
            rw [loaded] at done
            rcases Result.next_eq_ok done with ⟨inner, middle, here, later⟩
            rcases finished _ _ _ here with ⟨roots, order, _, rfl, leads, visits, settled⟩
            have first := Visits.node loaded old leads settled visits
            rcases ih later with ⟨order', new, same, second⟩
            rw [List.append_assoc] at same
            exact ⟨_, _, same, first.append second⟩

theorem visitEdges_visits
    (finished : ∀ contents before final, visit contents before = some (.ok final) → Finished load contents before final)
    {edges : List (Except Error (List Node))} {out : List Item}
    (done : visitEdges load visit edges output before = some (.ok (out, after))) :
    ∃ roots order new, out = output ++ new ∧
      (∀ root ∈ roots, ∃ nodes, .ok nodes ∈ edges ∧ root ∈ nodes) ∧
      Visits load roots before order new after ∧
      ∀ edge ∈ edges, ∃ nodes, edge = .ok nodes ∧ ∀ target ∈ nodes, target ∈ after := by
  induction edges generalizing output before with
  | nil =>
      cases done
      refine ⟨[], [], [], (List.append_nil _).symm, ?_, Visits.nil _, ?_⟩
      · intro root member
        cases member
      · intro edge member
        cases member
  | cons edge edges ih =>
      cases edge with
      | error e =>
          rw [visitEdges] at done
          cases done
      | ok nodes =>
          rw [visitEdges] at done
          rcases Result.next_eq_ok done with ⟨_, middle, here, later⟩
          rcases visitTargets_visits finished here with ⟨order, new, rfl, first⟩
          rcases ih later with ⟨roots, order', new', same, leads, second, settled⟩
          rw [List.append_assoc] at same
          refine ⟨nodes ++ roots, order ++ order', new ++ new', same, ?_, first.append second, ?_⟩
          · intro root member
            rcases List.mem_append.mp member with here | there
            · exact ⟨nodes, List.mem_cons_self, here⟩
            · rcases leads root there with ⟨targets, member, inside⟩
              exact ⟨targets, List.mem_cons_of_mem _ member, inside⟩
          · intro edge member
            rcases List.mem_cons.mp member with rfl | member
            · exact ⟨nodes, rfl, fun target inside =>
                second.subset target (first.roots_after target inside)⟩
            · exact settled edge member

end Lists

/-- Every successful traversal is one in post-order. -/
theorem visit_finished (done : visit load fuel contents before = some (.ok final)) :
    Finished load contents before final := by
  induction fuel generalizing contents before final with
  | zero => cases done
  | succ fuel ih =>
      rw [visit] at done
      rcases Result.next_eq_ok done with ⟨output, after, edges, last⟩
      cases last
      rcases visitEdges_visits (fun _ _ _ done => ih done) edges with
        ⟨roots, order, _, rfl, leads, visits, settled⟩
      exact ⟨roots, order, _, rfl, leads, visits, settled⟩

theorem visit_subset (done : visit load fuel contents before = some (.ok final)) :
    ∀ node ∈ before, node ∈ final.2 := by
  rcases visit_finished done with ⟨_, _, _, _, _, visits, _⟩
  exact visits.subset

/-- The whole traversal from one node, on a graph that has the node itself. -/
structure PostOrdered (load : Node → Except Error (Contents Node Error Item)) (start : Node)
    (order : List Node) (output : List Item) : Prop where
  output_eq : output = order.flatMap (ownOutput load)
  nodup : order.Nodup
  mem_iff : ∀ node, node ∈ order ↔ Reaches load start node
  loaded : ∀ node ∈ order, ∃ contents, load node = .ok contents ∧
    ∀ edge ∈ contents.edges, ∃ nodes, edge = .ok nodes
  sorted : (∀ node, Reaches load start node → ¬ Relation.TransGen (Edge load) node node) →
    ∀ front node back, order = front ++ node :: back →
      ∀ target, Edge load node target → target ∈ front

theorem visit_postOrdered {fuel : Nat} {start : Node} {contents : Contents Node Error Item}
    {output : List Item} {after : List Node} (loaded : load start = .ok contents)
    (done : visit load fuel contents [start] = some (.ok (output, after))) :
    ∃ order, PostOrdered load start order output := by
  rcases visit_finished done with ⟨roots, order, new, rfl, leads, visits, settled⟩
  have whole := Visits.node loaded List.not_mem_nil leads settled visits
  have closed : ∀ node, Reaches load start node → node ∈ order ++ [start] := by
    intro node path
    induction path with
    | refl => exact List.mem_append_right _ (List.mem_singleton_self start)
    | tail _ edge ih =>
        rcases whole.settled _ ih with ⟨found, foundLoaded, inside⟩
        rcases edge with ⟨_, same, nodes, memberNodes, memberTarget⟩
        rw [foundLoaded] at same
        cases same
        rcases inside _ memberNodes with ⟨_, same, within⟩
        cases same
        rcases (whole.mem_after _).mp (within _ memberTarget) with old | new
        · cases old
        · exact new
  have reached : ∀ node ∈ order ++ [start], Reaches load start node := by
    intro node member
    rcases whole.reached node member with ⟨root, memberRoot, path⟩
    rw [List.mem_singleton] at memberRoot
    rw [← memberRoot]
    exact path
  refine ⟨order ++ [start], whole.output_eq, whole.nodup, ?_, ?_, ?_⟩
  · exact fun node => ⟨reached node, closed node⟩
  · intro node member
    rcases whole.settled node member with ⟨found, foundLoaded, inside⟩
    refine ⟨found, foundLoaded, fun edge memberEdge => ?_⟩
    rcases inside edge memberEdge with ⟨nodes, same, _⟩
    exact ⟨nodes, same⟩
  · intro acyclic front node back split target edge
    rcases whole.targets front node back split target edge with old | early | path
    · cases old
    · exact early
    · have member : node ∈ order ++ [start] := by
        rw [split]
        exact List.mem_append_right front List.mem_cons_self
      exact absurd (Relation.TransGen.head' edge path) (acyclic node (reached node member))

end Success

section Termination

variable [DecidableEq Node] {load : Node → Except Error (Contents Node Error Item)}
  {nodes : Finset Node}

/-- All targets are in a set. -/
def Contents.Within (contents : Contents Node Error Item) (nodes : Finset Node) : Prop :=
  ∀ target, contents.Leads target → target ∈ nodes

/-- The number of nodes that are not visited yet. -/
def unvisited (nodes : Finset Node) (visited : List Node) : Nat :=
  (nodes \ visited.toFinset).card

theorem unvisited_le (nodes : Finset Node) (subset : ∀ node ∈ before, node ∈ after) :
    unvisited nodes after ≤ unvisited nodes before := by
  apply Finset.card_le_card
  apply Finset.sdiff_subset_sdiff (Finset.Subset.refl nodes)
  intro node member
  rw [List.mem_toFinset] at member ⊢
  exact subset node member

theorem unvisited_cons {visited : List Node} {node : Node} (inside : node ∈ nodes)
    (new : node ∉ visited) : unvisited nodes (node :: visited) < unvisited nodes visited := by
  rw [unvisited, List.toFinset_cons, Finset.sdiff_insert]
  apply Finset.card_erase_lt_of_mem
  rw [Finset.mem_sdiff, List.mem_toFinset]
  exact ⟨inside, new⟩

/-- Fuel for each unvisited node is enough. -/
theorem visit_isSome (within : ∀ node contents, load node = .ok contents → contents.Within nodes)
    (inside : contents.Within nodes) (enough : unvisited nodes before < fuel) :
    (visit load fuel contents before).isSome := by
  induction fuel generalizing contents before with
  | zero => exact absurd enough (Nat.not_lt_zero _)
  | succ fuel ih =>
      have targets : ∀ (list : List Node) (output : List Item) (visited : List Node),
          (∀ target ∈ list, target ∈ nodes) → unvisited nodes visited < fuel + 1 →
          (visitTargets load (visit load fuel) list output visited).isSome := by
        intro list
        induction list with
        | nil => exact fun _ _ _ _ => rfl
        | cons node list ihList =>
            intro output visited insideList few
            have rest : ∀ target ∈ list, target ∈ nodes := fun target member =>
              insideList target (List.mem_cons_of_mem node member)
            rw [visitTargets]
            by_cases old : node ∈ visited
            · rw [if_pos old]
              exact ihList output visited rest few
            · rw [if_neg old]
              cases loaded : load node with
              | error e => rfl
              | ok found =>
                  have fewer := unvisited_cons (insideList node List.mem_cons_self) old
                  apply Result.next_isSome
                  · exact ih (within node found loaded)
                      (Nat.lt_of_lt_of_le fewer (Nat.le_of_lt_succ few))
                  · intro inner after done
                    apply ihList _ _ rest
                    have kept := unvisited_le nodes (visit_subset done)
                    exact Nat.lt_of_le_of_lt kept (Nat.lt_trans fewer few)
      have all : ∀ (edges : List (Except Error (List Node))) (output : List Item)
          (visited : List Node), (∀ list, .ok list ∈ edges → ∀ target ∈ list, target ∈ nodes) →
          unvisited nodes visited < fuel + 1 →
          (visitEdges load (visit load fuel) edges output visited).isSome := by
        intro edges
        induction edges with
        | nil => exact fun _ _ _ _ => rfl
        | cons edge edges ihEdges =>
            intro output visited insideEdges few
            cases edge with
            | error e => rfl
            | ok list =>
                rw [visitEdges]
                apply Result.next_isSome
                · exact targets list output visited (insideEdges list List.mem_cons_self) few
                · intro inner after done
                  apply ihEdges
                  · exact fun list member => insideEdges list (List.mem_cons_of_mem _ member)
                  · rcases visitTargets_visits (fun _ _ _ done => visit_finished done) done with
                      ⟨_, _, _, visits⟩
                    exact Nat.lt_of_le_of_lt (unvisited_le nodes visits.subset) few
      rw [visit]
      apply Result.next_isSome
      · exact all contents.edges [] before
          (fun list member target memberTarget => inside target ⟨list, member, memberTarget⟩) enough
      · exact fun _ _ _ => rfl

end Termination

section Congr

variable [DecidableEq Node] {load load' : Node → Except Error (Contents Node Error Item)}

/-- A traversal does not see how visited nodes load. -/
theorem visit_congr (same : ∀ node, node ∉ before → load node = load' node) :
    visit load fuel contents before = visit load' fuel contents before := by
  induction fuel generalizing contents before with
  | zero => rfl
  | succ fuel ih =>
      have targets : ∀ (list : List Node) (output : List Item) (visited : List Node),
          (∀ node, node ∉ visited → load node = load' node) →
          visitTargets load (visit load fuel) list output visited =
            visitTargets load' (visit load' fuel) list output visited := by
        intro list
        induction list with
        | nil => exact fun _ _ _ => rfl
        | cons node list ihList =>
            intro output visited same
            rw [visitTargets, visitTargets]
            by_cases old : node ∈ visited
            · rw [if_pos old, if_pos old]
              exact ihList output visited same
            · rw [if_neg old, if_neg old, ← same node old]
              cases load node with
              | error e => rfl
              | ok found =>
                  have inner : visit load fuel found (node :: visited) =
                      visit load' fuel found (node :: visited) :=
                    ih fun other new => same other fun old => new (List.mem_cons_of_mem node old)
                  simp only
                  rw [← inner]
                  apply Result.next_congr
                  intro output' after done
                  apply ihList
                  intro other new
                  apply same
                  intro old
                  exact new (visit_subset done other (List.mem_cons_of_mem node old))
      have all : ∀ (edges : List (Except Error (List Node))) (output : List Item)
          (visited : List Node), (∀ node, node ∉ visited → load node = load' node) →
          visitEdges load (visit load fuel) edges output visited =
            visitEdges load' (visit load' fuel) edges output visited := by
        intro edges
        induction edges with
        | nil => exact fun _ _ _ => rfl
        | cons edge edges ihEdges =>
            intro output visited same
            cases edge with
            | error e => rfl
            | ok list =>
                rw [visitEdges, visitEdges, ← targets list output visited same]
                apply Result.next_congr
                intro output' after done
                apply ihEdges
                intro other new
                apply same
                intro old
                rcases visitTargets_visits (fun _ _ _ done => visit_finished done) done with
                  ⟨_, _, _, visits⟩
                exact new (visits.subset other old)
      rw [visit, visit, all contents.edges [] before same]

end Congr

end PostOrder
