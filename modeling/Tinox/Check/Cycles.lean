import Tinox.Data.Walks
import Tinox.Data.Entries
import Tinox.Check.Clauses
import Mathlib.Data.Fintype.EquivFin

/-!
# Cyclic inheritance

The third pass of registration processes a class behind its parent, in rounds until nothing more is
processed.  The classes of a cycle, and those below them, are left out without an error, and a walk
through the parents that looks for something else never ends on them.
-/

namespace Tinox.Check

open Tinox.Syntax Walks

variable {builtins : String → Option Signature} {file : SourceFile}

/-- The class that the last extends clause of a class names. -/
def parentOf (file : SourceFile) (name : String) : Option String :=
  (classesOf file).reverse.findSome? fun c => if c.name = name then c.extends_ else none

/-- A class extends a declared one. -/
def ExtendsDeclared (file : SourceFile) (child parent : String) : Prop :=
  parentOf file child = some parent ∧ (classMap file parent).isSome

/-- Some class extends itself, directly or not. -/
def Cyclic (file : SourceFile) : Prop :=
  ∃ name, Relation.TransGen (ExtendsDeclared file) name name

theorem parents_register (orders : Orders file) (processing : Processing file) (name : String) :
    (register builtins file orders processing).tables.classParents.lookup name =
      parentOf file name := by
  have loop : ∀ (decls : List Decl) (r : Registered),
      (heads (decls.foldl enterDecl r)).1.lookup name =
        ((decls.filterMap classOf).reverse.findSome? fun c =>
          if c.name = name then c.extends_ else none).or ((heads r).1.lookup name) := by
    intro decls r
    induction decls generalizing r with
    | nil => rfl
    | cons decl decls ih =>
        rw [List.foldl_cons, ih, heads_enterDecl, List.filterMap_cons]
        cases classOf decl with
        | none => rfl
        | some c =>
            have entered : (heads (registerHead c r)).1.lookup name =
                (([c].findSome? fun c => if c.name = name then c.extends_ else none).or
                  ((heads r).1.lookup name)) := by
              cases extends_ : c.extends_ with
              | none => simp [heads, registerHead, extends_]
              | some parent =>
                  by_cases same : c.name = name
                  · simp [heads, registerHead, extends_, same]
                  · simp [heads, registerHead, extends_, same, List.lookup_cons,
                      beq_false_of_ne (Ne.symm same)]
            dsimp only
            rw [List.reverse_cons, List.findSome?_append, Option.or_assoc, entered]
  have passes := congrArg Prod.fst (heads_register builtins orders processing)
  have first := loop (flattenDecls file) (newChecker builtins)
  calc (register builtins file orders processing).tables.classParents.lookup name
      = (heads (enterAllDecls builtins file)).1.lookup name :=
          congrArg (fun parents : List (String × String) => parents.lookup name) passes
    _ = (parentOf file name).or none := first
    _ = parentOf file name := Option.or_none

theorem declared_of_parentOf {child parent : String} (isParent : parentOf file child = some parent) :
    (classMap file child).isSome := by
  rw [parentOf] at isParent
  rcases List.exists_of_findSome?_eq_some isParent with ⟨c, member, clause⟩
  rw [classMap, List.find?_isSome]
  refine ⟨c, member, beq_iff_eq.mpr ?_⟩
  by_contra other
  rw [if_neg other] at clause
  contradiction

theorem cyclic_iff : Cyclic file ↔ ∃ name, Relation.TransGen (Leads (parentOf file)) name name := by
  constructor
  · rintro ⟨name, cycle⟩
    exact ⟨name, Relation.TransGen.mono (fun _ _ => And.left) _ _ cycle⟩
  · rintro ⟨name, cycle⟩
    refine ⟨name, ?_⟩
    have declared : ∀ {a b}, Relation.TransGen (Leads (parentOf file)) a b →
        (classMap file b).isSome → Relation.TransGen (ExtendsDeclared file) a b := by
      intro a b way
      induction way with
      | single leads => exact fun known => Relation.TransGen.single ⟨leads, known⟩
      | tail _ leads ih =>
          exact fun known => (ih (declared_of_parentOf leads)).tail ⟨leads, known⟩
    rcases Relation.TransGen.head'_iff.mp cycle with ⟨_, leads, -⟩
    exact declared cycle (declared_of_parentOf leads)

/-- Whether a class is not below an unprocessed one. -/
def parentReady (file : SourceFile) (processed : List ClassDecl) (c : ClassDecl) : Bool :=
  match c.extends_ with
  | some parent =>
      (processed.map ClassDecl.name).contains parent || (classMap file parent).isNone
  | none => true

/-- One name in a round. -/
def processName (file : SourceFile) (processed : List ClassDecl) (name : String) : List ClassDecl :=
  match classMap file name with
  | some c =>
      if (processed.map ClassDecl.name).contains name then processed
      else if parentReady file processed c then processed ++ [c]
      else processed
  | none => processed

/-- One round over all names. -/
def processRound (file : SourceFile) (names : List String) (processed : List ClassDecl) :
    List ClassDecl :=
  names.foldl (processName file) processed

/-- Rounds until one processes nothing more, if that happens within a number of rounds. -/
def processRounds (file : SourceFile) (names : List String) : Nat → List ClassDecl →
    Option (List ClassDecl)
  | 0, _ => none
  | rounds + 1, processed =>
      let next := processRound file names processed
      if next.length = processed.length then some next else processRounds file names rounds next

/-- An order in which the names of classes are iterated. -/
structure ClassNames (file : SourceFile) where
  names : List String
  nodup : names.Nodup
  mem_names : ∀ name, name ∈ names ↔ (classMap file name).isSome

/-- What rounds keep. -/
structure Processed (file : SourceFile) (processed : List ClassDecl) : Prop where
  nodup : (processed.map ClassDecl.name).Nodup
  classes : ∀ c ∈ processed, classMap file c.name = some c
  parentsFirst : ∀ before c after parent, processed = before ++ c :: after →
    c.extends_ = some parent → (classMap file parent).isSome → parent ∈ before.map ClassDecl.name

namespace Processed

variable {processed : List ClassDecl} {names : List String} {c : ClassDecl}

theorem nil : Processed file [] :=
  ⟨List.nodup_nil, nofun, fun _ _ _ _ split => absurd split (by simp)⟩

theorem concat (keeps : Processed file processed) (isClass : classMap file c.name = some c)
    (isNew : c.name ∉ processed.map ClassDecl.name) (ready : parentReady file processed c = true) :
    Processed file (processed ++ [c]) := by
  constructor
  · rw [List.map_append]
    exact keeps.nodup.append (List.nodup_singleton _) (List.disjoint_singleton.mpr isNew)
  · intro other member
    rcases List.mem_append.mp member with member | member
    · exact keeps.classes other member
    · rw [List.mem_singleton.mp member]
      exact isClass
  · intro before other after parent split extends_ declared
    rcases List.eq_nil_or_concat after with rfl | ⟨rest, last, rfl⟩
    · rcases List.append_inj' split rfl with ⟨rfl, same⟩
      cases same
      rw [parentReady, extends_] at ready
      rcases Bool.or_eq_true_iff.mp ready with known | missing
      · exact List.contains_iff_mem.mp known
      · rw [Option.isNone_iff_eq_none] at missing
        rw [missing] at declared
        contradiction
    · rw [List.concat_eq_append, ← List.cons_append, ← List.append_assoc] at split
      exact keeps.parentsFirst before other rest parent (List.append_inj' split rfl).1 extends_
        declared

theorem processName (keeps : Processed file processed) (name : String) :
    Processed file (processName file processed name) := by
  rw [Check.processName]
  cases isClass : classMap file name with
  | none => exact keeps
  | some c =>
      dsimp only
      split
      · exact keeps
      next isNew =>
        split
        next ready =>
          cases (mem_of_classMap isClass).2
          exact keeps.concat isClass (fun member => isNew (List.contains_iff_mem.mpr member)) ready
        · exact keeps

theorem processRound (keeps : Processed file processed) :
    Processed file (processRound file names processed) := by
  induction names generalizing processed with
  | nil => exact keeps
  | cons name names ih => exact ih (keeps.processName name)

theorem processRounds {rounds : Nat} {order : List ClassDecl} (keeps : Processed file processed)
    (found : processRounds file names rounds processed = some order) : Processed file order := by
  induction rounds generalizing processed with
  | zero => contradiction
  | succ rounds ih =>
      rw [Check.processRounds] at found
      split at found
      · cases found
        exact keeps.processRound
      · exact ih keeps.processRound found

theorem length_le (keeps : Processed file processed) (classNames : ClassNames file) :
    processed.length ≤ classNames.names.length := by
  have known : processed.map ClassDecl.name ⊆ classNames.names := by
    intro name member
    rcases List.mem_map.mp member with ⟨c, listed, rfl⟩
    rw [classNames.mem_names, keeps.classes c listed, Option.isSome_some]
  rw [← List.length_map ClassDecl.name]
  exact (keeps.nodup.subperm known).length_le

end Processed

variable {processed : List ClassDecl} {c : ClassDecl}

theorem parentReady_of
    (listed : ∀ parent, c.extends_ = some parent → (classMap file parent).isSome → parent ∈ processed.map ClassDecl.name) :
    parentReady file processed c = true := by
  rw [parentReady]
  cases extends_ : c.extends_ with
  | none => rfl
  | some parent =>
      dsimp only
      rw [Bool.or_eq_true_iff, List.contains_iff_mem, Option.isNone_iff_eq_none]
      cases isParent : classMap file parent with
      | none => exact .inr rfl
      | some p => exact .inl (listed parent extends_ (by rw [isParent, Option.isSome_some]))

theorem processName_eq (file : SourceFile) (processed : List ClassDecl) (name : String) :
    processName file processed name = processed ∨
      ∃ c, processName file processed name = processed ++ [c] := by
  rw [processName]
  cases classMap file name with
  | none => exact .inl rfl
  | some c =>
      dsimp only
      split
      · exact .inl rfl
      · split
        · exact .inr ⟨c, rfl⟩
        · exact .inl rfl

theorem length_processRound (file : SourceFile) (names : List String) (processed : List ClassDecl) :
    processed.length ≤ (processRound file names processed).length := by
  induction names generalizing processed with
  | nil => exact Nat.le_refl _
  | cons name names ih =>
      have one : processed.length ≤ (processName file processed name).length := by
        rcases processName_eq file processed name with same | ⟨c, more⟩
        · exact Nat.le_of_eq (congrArg List.length same.symm)
        · rw [more, List.length_append]
          exact Nat.le_add_right _ _
      exact Nat.le_trans one (ih _)

theorem processName_of_length {names : List String}
    (same : (processRound file names processed).length = processed.length) :
    ∀ name ∈ names, processName file processed name = processed := by
  induction names with
  | nil => exact nofun
  | cons name names ih =>
      have rest := length_processRound file names (processName file processed name)
      have whole : processRound file (name :: names) processed =
        processRound file names (processName file processed name) := rfl
      rcases processName_eq file processed name with first | ⟨c, more⟩
      · rw [whole, first] at same
        exact List.forall_mem_cons.mpr ⟨first, ih same⟩
      · rw [whole] at same
        rw [same, more, List.length_append, List.length_singleton] at rest
        exact absurd rest (Nat.not_succ_le_self _)

theorem processRound_of_length {names : List String}
    (same : (processRound file names processed).length = processed.length) :
    processRound file names processed = processed := by
  have passes := processName_of_length same
  induction names with
  | nil => rfl
  | cons name names ih =>
      have first := passes name List.mem_cons_self
      have whole : processRound file (name :: names) processed =
        processRound file names (processName file processed name) := rfl
      rw [whole, first] at same ⊢
      exact ih same fun other member => passes other (List.mem_cons_of_mem _ member)

theorem processRounds_isSome (classNames : ClassNames file) {rounds : Nat}
    (keeps : Processed file processed)
    (enough : classNames.names.length < rounds + processed.length) :
    (processRounds file classNames.names rounds processed).isSome := by
  induction rounds generalizing processed with
  | zero =>
      rw [Nat.zero_add] at enough
      exact absurd (keeps.length_le classNames) (Nat.not_le.mpr enough)
  | succ rounds ih =>
      rw [processRounds]
      split
      · rfl
      next more =>
        have grows := length_processRound file classNames.names processed
        have longer := Nat.lt_of_le_of_ne grows (Ne.symm more)
        exact ih keeps.processRound (by omega)

theorem mem_of_processRounds (classNames : ClassNames file) {rounds : Nat} {order : List ClassDecl}
    (found : processRounds file classNames.names rounds processed = some order) {name : String}
    (isClass : classMap file name = some c) (ready : parentReady file order c = true) :
    c.name ∈ order.map ClassDecl.name := by
  induction rounds generalizing processed with
  | zero => contradiction
  | succ rounds ih =>
      rw [processRounds] at found
      split at found
      next same =>
        rw [processRound_of_length same] at found
        cases found
        have listed : name ∈ classNames.names :=
          (classNames.mem_names name).mpr (by rw [isClass, Option.isSome_some])
        have passed := processName_of_length same name listed
        rw [(mem_of_classMap isClass).2]
        by_contra isNew
        rw [processName, isClass] at passed
        dsimp only at passed
        rw [if_neg fun known => isNew (List.contains_iff_mem.mp known), if_pos ready] at passed
        exact absurd (congrArg List.length passed) (by simp)
      · exact ih found

/-- What the rounds leave behind is an order in which the third pass may process the classes. -/
def ClassNames.processing (classNames : ClassNames file) : Processing file :=
  have ends : (processRounds file classNames.names (classNames.names.length + 1) []).isSome :=
    processRounds_isSome classNames Processed.nil (Nat.lt_succ_self _)
  have keeps : Processed file
      ((processRounds file classNames.names (classNames.names.length + 1) []).get ends) :=
    Processed.nil.processRounds (Option.some_get ends).symm
  { order := (processRounds file classNames.names (classNames.names.length + 1) []).get ends
    nodup := keeps.nodup
    classes := keeps.classes
    parentsFirst := keeps.parentsFirst
    complete := by
      intro name c isClass ready
      have listed := mem_of_processRounds classNames (Option.some_get ends).symm isClass
        (parentReady_of ready)
      rcases List.mem_map.mp listed with ⟨other, member, same⟩
      have isOther := keeps.classes other member
      rw [same, (mem_of_classMap isClass).2, isClass] at isOther
      cases isOther
      exact member }

variable {steps : Nat}

theorem ancestors_none (steps : Nat) : ancestors file steps none = [] := by
  cases steps with
  | zero => rfl
  | succ steps => rfl

theorem ancestors_split (processing : Processing file) {before after : List ClassDecl}
    (split : processing.order = before ++ c :: after) (enough : before.length ≤ steps) :
    ancestors file steps c.extends_ = ancestors file before.length c.extends_ := by
  induction isLength : before.length using Nat.strongRecOn generalizing before c after steps with
  | _ count ih =>
  subst isLength
  cases extends_ : c.extends_ with
  | none => rw [ancestors_none, ancestors_none]
  | some parent =>
      cases isParent : classMap file parent with
      | none =>
          have nothing : ∀ steps, ancestors file steps (some parent) = [] := by
            intro steps
            cases steps with
            | zero => rfl
            | succ steps => simp only [ancestors, isParent]
          rw [nothing, nothing]
      | some p =>
          have earlier := processing.parentsFirst before c after parent split extends_
            (by rw [isParent, Option.isSome_some])
          rcases List.mem_map.mp earlier with ⟨q, member, rfl⟩
          have isClass := processing.classes q (by
            rw [split]
            exact List.mem_append_left _ member)
          rw [isParent] at isClass
          cases isClass
          rcases List.append_of_mem member with ⟨first, rest, rfl⟩
          have shorter : first.length < (first ++ p :: rest).length := by simp
          have fewer : first.length ≤ (first ++ p :: rest).length - 1 :=
            Nat.le_sub_one_of_lt shorter
          rw [List.append_assoc, List.cons_append] at split
          have one := fun {steps} (enough : first.length ≤ steps) =>
            ih first.length shorter split enough rfl
          have unfold : ∀ steps, 0 < steps → ancestors file steps (some p.name) =
              p :: ancestors file (steps - 1) p.extends_ := by
            intro steps positive
            cases steps with
            | zero => contradiction
            | succ steps => simp only [ancestors, isParent, Nat.add_sub_cancel]
          have positive : 0 < (first ++ p :: rest).length := Nat.zero_lt_of_lt shorter
          rw [unfold steps (Nat.lt_of_lt_of_le positive enough), unfold _ positive, one fewer,
            one (Nat.le_trans fewer (Nat.sub_le_sub_right enough 1))]

theorem ancestors_complete (processing : Processing file) (processed : c ∈ processing.order)
    (enough : (classesOf file).length ≤ steps) :
    ancestors file steps c.extends_ = ancestors file (classesOf file).length c.extends_ := by
  rcases List.append_of_mem processed with ⟨before, after, split⟩
  have known : processing.order ⊆ classesOf file :=
    fun other member => (mem_of_classMap (processing.classes other member)).1
  have fits := (processing.nodup.of_map.subperm known).length_le
  have shorter : before.length ≤ (classesOf file).length := by
    rw [split, List.length_append] at fits
    exact Nat.le_trans (Nat.le_add_right _ _) fits
  rw [ancestors_split processing split shorter,
    ancestors_split processing split (Nat.le_trans shorter enough)]

/-- The declared class that a declared class extends. -/
def nextAncestor (file : SourceFile) (name : String) : Option String :=
  ((classMap file name).bind ClassDecl.extends_).filter fun parent => (classMap file parent).isSome

theorem ends_of_processed (processing : Processing file) {before after : List ClassDecl}
    (split : processing.order = before ++ c :: after) : Ends (nextAncestor file) c.name := by
  induction isLength : before.length using Nat.strongRecOn generalizing before c after with
  | _ count ih =>
  subst isLength
  have isClass := processing.classes c (by
    rw [split]
    exact List.mem_append_right _ List.mem_cons_self)
  refine Acc.intro _ fun parent leads => ?_
  rw [Leads, nextAncestor, isClass, Option.bind_some, Option.filter_eq_some_iff] at leads
  have earlier := processing.parentsFirst before c after parent split leads.1 leads.2
  rcases List.mem_map.mp earlier with ⟨p, member, rfl⟩
  rcases List.append_of_mem member with ⟨first, rest, rfl⟩
  rw [List.append_assoc, List.cons_append] at split
  exact ih first.length (by simp) split rfl

theorem processed_of_ends (processing : Processing file) (isClass : classMap file c.name = some c)
    (ends : Ends (nextAncestor file) c.name) : c ∈ processing.order := by
  generalize isName : c.name = name at ends
  induction ends generalizing c with
  | intro name _ ih =>
      refine processing.complete c.name c isClass fun parent extends_ declared => ?_
      rcases Option.isSome_iff_exists.mp declared with ⟨p, isParent⟩
      have isNamed := (mem_of_classMap isParent).2
      have leads : Leads (nextAncestor file) name parent := by
        rw [Leads, nextAncestor, ← isName, isClass, Option.bind_some, extends_,
          Option.filter_some, if_pos declared]
      exact List.mem_map.mpr ⟨p, ih parent leads (isNamed.symm ▸ isParent) isNamed, isNamed⟩

/-- In whatever order the names of classes are iterated, the third pass processes those classes
whose chains of declared parents end, and no others. -/
theorem mem_processing_iff (classNames others : ClassNames file) :
    classNames.processing.order.Perm others.processing.order ∧
      ∀ c, c ∈ classNames.processing.order ↔
        classMap file c.name = some c ∧ Ends (nextAncestor file) c.name := by
  have exact_ (processing : Processing file) (c : ClassDecl) : c ∈ processing.order ↔
      classMap file c.name = some c ∧ Ends (nextAncestor file) c.name := by
    constructor
    · intro member
      rcases List.append_of_mem member with ⟨before, after, split⟩
      exact ⟨processing.classes c member, ends_of_processed processing split⟩
    · exact fun known => processed_of_ends processing known.1 known.2
  refine ⟨(List.perm_ext_iff_of_nodup ?_ ?_).mpr fun c => ?_, exact_ _⟩
  · exact classNames.processing.nodup.of_map
  · exact others.processing.nodup.of_map
  · rw [exact_, exact_]

/-- The loop of `is_subclass_or_equal`, if it ends within a number of steps. -/
def subclassLoop (classParents : List (String × String)) (base : String) :
    Nat → String → Option Bool
  | 0, _ => none
  | steps + 1, current =>
      match classParents.lookup current with
      | some parent =>
          if parent = base then some true else subclassLoop classParents base steps parent
      | none => some false

/-- `is_subclass_or_equal`, if its loop ends within a number of steps. -/
def subclassWithin (classParents : List (String × String)) (candidate base : String)
    (steps : Nat) : Option Bool :=
  if candidate = base then some true else subclassLoop classParents base steps candidate

/-- The next class of the loop. -/
def nextBelow (classParents : List (String × String)) (base current : String) : Option String :=
  (classParents.lookup current).filter (· ≠ base)

section Subclass

variable {classParents : List (String × String)} {base candidate current : String}

theorem lookup_of_nextBelow {parent : String}
    (leads : Leads (nextBelow classParents base) current parent) :
    classParents.lookup current = some parent ∧ parent ≠ base := by
  rw [Leads, nextBelow, Option.filter_eq_some_iff, decide_eq_true_eq] at leads
  exact leads

theorem finite_nextBelow (isNext : (nextBelow classParents base current).isSome) :
    current ∈ classParents.map Prod.fst := by
  rcases Option.isSome_iff_exists.mp isNext with ⟨parent, leads⟩
  exact List.mem_map_of_mem (Entries.mem_of_lookup (lookup_of_nextBelow leads).1)

theorem ends_of_subclassLoop (returns : (subclassLoop classParents base steps current).isSome) :
    Ends (nextBelow classParents base) current := by
  induction steps generalizing current with
  | zero => contradiction
  | succ steps ih =>
      rw [subclassLoop] at returns
      cases isParent : classParents.lookup current with
      | none => exact ends_of_none (by rw [nextBelow, isParent, Option.filter_none])
      | some parent =>
          rw [isParent] at returns
          dsimp only at returns
          by_cases found : parent = base
          · refine ends_of_none ?_
            rw [nextBelow, isParent, found, Option.filter_some]
            exact if_neg (by simp)
          · rw [if_neg found] at returns
            refine ends_of_leads ?_ (ih returns)
            rw [Leads, nextBelow, isParent, Option.filter_some]
            exact if_pos (by simpa using found)

/-- The loop answers as the bounded walk does, if it ends within the bound. -/
theorem subclassLoop_of_length_trail
    (short : (trail (nextBelow classParents base) steps current).length < steps) :
    subclassLoop classParents base steps current =
      some (extendsWithin classParents base steps current) := by
  induction steps generalizing current with
  | zero => contradiction
  | succ steps ih =>
      rw [subclassLoop, extendsWithin]
      cases isParent : classParents.lookup current with
      | none => rfl
      | some parent =>
          dsimp only
          by_cases found : parent = base
          · rw [if_pos found, decide_eq_true found, Bool.true_or]
          · have isNext : nextBelow classParents base current = some parent := by
              rw [nextBelow, isParent, Option.filter_some]
              exact if_pos (by simpa using found)
            rw [trail, isNext] at short
            rw [if_neg found, decide_eq_false found, Bool.false_or]
            exact ih (Nat.lt_of_succ_lt_succ short)

theorem subclassLoop_of_ends (ends : Ends (nextBelow classParents base) current) :
    subclassLoop classParents base (classParents.length + 1) current =
      some (extendsWithin classParents base (classParents.length + 1) current) := by
  apply subclassLoop_of_length_trail
  have short := length_trail_le (fun _ => finite_nextBelow)
    (fun b reached => (ends.reached reached).noReturn) (classParents.length + 1)
  rw [List.length_map] at short
  exact Nat.lt_succ_of_le short

theorem subclassLoop_mono {more : Nat} {answer : Bool} (enough : steps ≤ more)
    (returns : subclassLoop classParents base steps current = some answer) :
    subclassLoop classParents base more current = some answer := by
  induction steps generalizing more current with
  | zero => contradiction
  | succ steps ih =>
      cases more with
      | zero => contradiction
      | succ more =>
          rw [subclassLoop] at returns ⊢
          cases isParent : classParents.lookup current with
          | none =>
              rw [isParent] at returns
              exact returns
          | some parent =>
              rw [isParent] at returns
              dsimp only at returns ⊢
              by_cases found : parent = base
              · rw [if_pos found] at returns ⊢
                exact returns
              · rw [if_neg found] at returns ⊢
                exact ih (Nat.le_of_succ_le_succ enough) returns

theorem isSubclassOrEqual_of_returns {t : Tables} {answer : Bool}
    (returns : subclassWithin t.classParents candidate base steps = some answer) :
    isSubclassOrEqual t candidate base = answer := by
  rw [subclassWithin] at returns
  rw [isSubclassOrEqual]
  by_cases same : candidate = base
  · rw [if_pos same] at returns
    rw [decide_eq_true same, Bool.true_or, ← Option.some.inj returns]
  · rw [if_neg same] at returns
    have ends := ends_of_subclassLoop (by rw [returns, Option.isSome_some])
    have bounded := subclassLoop_of_ends ends
    have longer := subclassLoop_mono (Nat.le_max_left steps (t.classParents.length + 1)) returns
    have other := subclassLoop_mono (Nat.le_max_right steps (t.classParents.length + 1)) bounded
    rw [decide_eq_false same, Bool.false_or]
    exact Option.some.inj (other.symm.trans longer)

theorem subclassLoop_iff {answer : Bool}
    (returns : subclassLoop classParents base steps current = some answer) :
    answer = true ↔ Relation.TransGen (Leads (List.lookup · classParents)) current base := by
  induction steps generalizing current with
  | zero => cases returns
  | succ steps ih =>
      rw [subclassLoop] at returns
      rw [Relation.TransGen.head'_iff]
      cases isParent : classParents.lookup current with
      | none =>
          rw [isParent] at returns
          cases returns
          refine iff_of_false Bool.false_ne_true ?_
          rintro ⟨parent, leads, -⟩
          rw [Leads, isParent] at leads
          cases leads
      | some parent =>
          rw [isParent] at returns
          dsimp only at returns
          have next : (∃ other, Leads (List.lookup · classParents) current other ∧
              Relation.ReflTransGen (Leads (List.lookup · classParents)) other base) ↔
              Relation.ReflTransGen (Leads (List.lookup · classParents)) parent base := by
            constructor
            · rintro ⟨other, leads, way⟩
              rw [Leads, isParent] at leads
              cases leads
              exact way
            · exact fun way => ⟨parent, isParent, way⟩
          rw [next, Relation.reflTransGen_iff_eq_or_transGen]
          by_cases found : parent = base
          · rw [if_pos found] at returns
            exact iff_of_true (Option.some.inj returns).symm (Or.inl found.symm)
          · rw [if_neg found] at returns
            rw [ih returns, or_iff_right (Ne.symm found)]

/-- Where `is_subclass_or_equal` returns, the bounded walk gives its answer, which is whether the
base is the class or one of its ancestors. -/
theorem subclassWithin_spec {t : Tables} {answer : Bool}
    (returns : subclassWithin t.classParents candidate base steps = some answer) :
    isSubclassOrEqual t candidate base = answer ∧
      (answer = true ↔
        Relation.ReflTransGen (Leads (List.lookup · t.classParents)) candidate base) := by
  refine ⟨isSubclassOrEqual_of_returns returns, ?_⟩
  rw [subclassWithin] at returns
  rw [Relation.reflTransGen_iff_eq_or_transGen]
  by_cases same : candidate = base
  · rw [if_pos same] at returns
    exact iff_of_true (Option.some.inj returns).symm (Or.inl same.symm)
  · rw [if_neg same] at returns
    rw [subclassLoop_iff returns, or_iff_right (Ne.symm same)]

theorem subclassWithin_spec_grandparent : Relation.ReflTransGen
    (Leads (List.lookup · [("Cat", "Animal"), ("Lion", "Cat")])) "Lion" "Animal" := by
  have returns : subclassWithin
      { noTables with classParents := [("Cat", "Animal"), ("Lion", "Cat")] }.classParents
      "Lion" "Animal" 2 = some true := by decide
  exact (subclassWithin_spec returns).2.mp rfl

theorem subclassLoop_cycle (cycle : Relation.TransGen (Leads (List.lookup · classParents)) current current)
    (apart : ¬ Relation.TransGen (Leads (List.lookup · classParents)) current base) (steps : Nat) :
    subclassLoop classParents base steps current = none := by
  rw [← Option.not_isSome_iff_eq_none]
  intro returns
  have follows : ∀ name, Relation.TransGen (Leads (List.lookup · classParents)) current name →
      Relation.TransGen (Leads (nextBelow classParents base)) current name := by
    intro name way
    have step : ∀ {a b}, Relation.TransGen (Leads (List.lookup · classParents)) current b →
        Leads (List.lookup · classParents) a b → Leads (nextBelow classParents base) a b := by
      intro a b reached leads
      have other : b ≠ base := fun same => apart (same ▸ reached)
      rw [Leads] at leads
      rw [Leads, nextBelow, leads, Option.filter_some]
      exact if_pos (by simpa using other)
    induction way with
    | single leads => exact Relation.TransGen.single (step (.single leads) leads)
    | tail way leads ih => exact ih.tail (step (way.tail leads) leads)
  exact (ends_of_subclassLoop returns).noReturn (follows current cycle)

/-- The loop always ends if and only if no class extends itself, directly or not. -/
theorem subclassWithin_isSome_iff :
    (∀ candidate base, ∃ steps, (subclassWithin classParents candidate base steps).isSome) ↔
      ∀ name, ¬ Relation.TransGen (Leads (List.lookup · classParents)) name name := by
  constructor
  · intro returns name cycle
    rcases Infinite.exists_notMem_finset (insert name (classParents.map Prod.snd).toFinset) with
      ⟨base, fresh⟩
    rw [Finset.mem_insert, List.mem_toFinset, not_or] at fresh
    have apart : ¬ Relation.TransGen (Leads (List.lookup · classParents)) name base := by
      intro way
      rcases Relation.TransGen.tail'_iff.mp way with ⟨last, -, leads⟩
      exact fresh.2 (List.mem_map_of_mem (Entries.mem_of_lookup leads))
    rcases returns name base with ⟨steps, ends⟩
    rw [subclassWithin, if_neg (Ne.symm fresh.1), subclassLoop_cycle cycle apart] at ends
    contradiction
  · intro noReturn candidate base
    have ends : Ends (nextBelow classParents base) candidate := by
      refine ends_of_noReturn (fun _ => finite_nextBelow) (fun name cycle => noReturn name ?_) _
      exact Relation.TransGen.mono (fun _ _ leads => (lookup_of_nextBelow leads).1) _ _ cycle
    refine ⟨classParents.length + 1, ?_⟩
    rw [subclassWithin, subclassLoop_of_ends ends]
    split <;> rfl

end Subclass

/-- The loops of the checker end: the rounds of the third pass in every order of the names, the walk
through the ancestors of each class that is processed, and `is_subclass_or_equal` for every two
classes.  All other functions follow the syntax of the program. -/
structure Returns (file : SourceFile) (processing : Processing file) (t : Tables) : Prop where
  rounds : ∀ classNames : ClassNames file, ∃ rounds,
    (processRounds file classNames.names rounds []).isSome
  ancestors : ∀ c ∈ processing.order, ∃ bound, ∀ steps, bound ≤ steps →
    ancestors file steps c.extends_ = ancestors file bound c.extends_
  subclass : ∀ candidate base, ∃ steps,
    (subclassWithin t.classParents candidate base steps).isSome

/-- The checker returns and rejects cycles exactly if there are none. -/
theorem cyclesRejected_iff (builtins : String → Option Signature) (file : SourceFile)
    (orders : Orders file) (processing : Processing file) (annotationErrors : List BodyError) :
    (Returns file processing (register builtins file orders processing).tables ∧
        (Cyclic file →
          ¬ accepted (register builtins file orders processing) annotationErrors file)) ↔
      ¬ Cyclic file := by
  have parents : (List.lookup · (register builtins file orders processing).tables.classParents) =
      parentOf file := funext (parents_register orders processing)
  have loops : (∀ candidate base, ∃ steps, (subclassWithin
      (register builtins file orders processing).tables.classParents candidate base steps).isSome) ↔
        ∀ name, ¬ Relation.TransGen (Leads (parentOf file)) name name :=
    parents ▸ subclassWithin_isSome_iff
  rw [cyclic_iff]
  constructor
  · rintro ⟨returns, -⟩ ⟨name, cycle⟩
    exact loops.mp returns.subclass name cycle
  · intro acyclic
    refine ⟨⟨fun classNames => ?_, fun c processed => ?_, ?_⟩, fun cyclic => absurd cyclic acyclic⟩
    · exact ⟨_, processRounds_isSome classNames Processed.nil (Nat.lt_succ_self _)⟩
    · exact ⟨_, fun steps enough => ancestors_complete processing processed enough⟩
    · exact loops.mpr fun name cycle => acyclic ⟨name, cycle⟩

/-- `class name extends parent { }`. -/
def bareClass (name parent : String) : ClassDecl where
  name := name
  typeParams := []
  extends_ := some parent
  implements := []
  fields := []
  methods := []
  doc := none
  annotations := []

def loopFile : SourceFile :=
  ⟨[.class_ (bareClass "Ping" "Pong"), .class_ (bareClass "Pong" "Ping")]⟩

def loopOrders : Orders loopFile where
  extendsOrder := []
  interfaceOrder := []
  extends_nodup := List.nodup_nil
  mem_extends _ := iff_of_false List.not_mem_nil Bool.false_ne_true
  interface_nodup := List.nodup_nil
  mem_interface _ := iff_of_false List.not_mem_nil Bool.false_ne_true

def loopNames : ClassNames loopFile where
  names := ["Ping", "Pong"]
  nodup := by decide
  mem_names := by
    intro name
    rw [List.mem_pair]
    constructor
    · rintro (rfl | rfl)
      · rfl
      · rfl
    · intro declared
      rcases Option.isSome_iff_exists.mp declared with ⟨c, isClass⟩
      rcases mem_of_classMap isClass with ⟨member, rfl⟩
      rcases List.mem_pair.mp member with rfl | rfl
      · exact .inl rfl
      · exact .inr rfl

/-- Two classes extend each other and are accepted, and on them the loop that looks for a third class
never ends. -/
theorem cycle_accepted :
    Cyclic loopFile ∧
      accepted (register (fun _ => none) loopFile loopOrders loopNames.processing) [] loopFile ∧
      ∀ steps, subclassWithin
        (register (fun _ => none) loopFile loopOrders loopNames.processing).tables.classParents
        "Ping" "Vault" steps = none := by
  have there : ExtendsDeclared loopFile "Ping" "Pong" := ⟨rfl, rfl⟩
  have back : ExtendsDeclared loopFile "Pong" "Ping" := ⟨rfl, rfl⟩
  have cycle : Relation.TransGen (ExtendsDeclared loopFile) "Ping" "Ping" :=
    (Relation.TransGen.single there).tail back
  refine ⟨⟨"Ping", cycle⟩, ?_, ?_⟩
  · rw [accepted]
    decide
  · intro steps
    have loops : ∀ steps, subclassLoop
        (register (fun _ => none) loopFile loopOrders loopNames.processing).tables.classParents
          "Vault" steps "Ping" = none ∧
        subclassLoop
          (register (fun _ => none) loopFile loopOrders loopNames.processing).tables.classParents
          "Vault" steps "Pong" = none := by
      intro steps
      induction steps with
      | zero => exact ⟨rfl, rfl⟩
      | succ steps ih => exact ⟨ih.2, ih.1⟩
    rw [subclassWithin, if_neg (by decide)]
    exact (loops steps).1

end Tinox.Check
