import Tinox.Check.Inheritance

/-!
# Independence of the orders of iteration

The interface tables are right, and the same for all orders of iteration,
exactly when inheritance is shallow.  One direction follows the tables through
an arbitrary run; the other picks, for each way to be not shallow, an order in
which the run goes wrong.
-/

namespace Tinox.Check

open Tinox.Syntax

/-- The methods of an interface entered into a symbol table. -/
def enterMethods (functions : String → Option Signature) (iface : String) (methods : Methods) :
    String → Option Signature :=
  methods.foldl (fun functions entry =>
    Function.update functions (methodSymbol iface entry.1)
      (some { entry.2 with params := ("self", .named iface []) :: entry.2.params })) functions

theorem methodSymbol_inj {iface first second : String}
    (same : methodSymbol iface first = methodSymbol iface second) : first = second := by
  rw [methodSymbol, methodSymbol] at same
  exact String.append_right_inj _ |>.mp same

section Enter

variable {functions : String → Option Signature} {iface symbol : String} {methods : Methods}

theorem enterMethods_other (other : ∀ entry ∈ methods, methodSymbol iface entry.1 ≠ symbol) :
    enterMethods functions iface methods symbol = functions symbol := by
  induction methods generalizing functions with
  | nil => rfl
  | cons entry methods ih =>
      rw [enterMethods, List.foldl_cons, ← enterMethods,
        ih fun later member => other later (List.mem_cons_of_mem entry member)]
      exact Function.update_of_ne (other entry List.mem_cons_self).symm _ _

theorem enterMethods_of_mem {method : String} {signature : Signature}
    (distinct : methods.names.Nodup) (member : (method, signature) ∈ methods) :
    enterMethods functions iface methods (methodSymbol iface method) =
      some { signature with params := ("self", .named iface []) :: signature.params } := by
  induction methods generalizing functions with
  | nil => cases member
  | cons entry methods ih =>
      rw [Methods.names, List.map_cons, List.nodup_cons] at distinct
      rw [enterMethods, List.foldl_cons, ← enterMethods]
      rcases List.mem_cons.mp member with rfl | member
      · rw [enterMethods_other, Function.update_self]
        intro later memberLater same
        exact distinct.1 (List.mem_map.mpr ⟨later, memberLater, methodSymbol_inj same⟩)
      · exact ih distinct.2 member

end Enter

theorem registerMethods_eq (s : Checker) (iface : String) :
    registerMethods s iface =
      { s with functions := enterMethods s.functions iface (s.own iface) } := by
  rw [registerMethods, ← Checker.own]
  generalize s.own iface = methods
  induction methods generalizing s with
  | nil => rfl
  | cons entry methods ih => exact ih _

section EnterAll

variable {tables : String → Methods} {functions : String → Option Signature} {order : List String}
  {symbol : String}

/-- The methods of several interfaces, one interface after the other. -/
def enterAll (tables : String → Methods) (order : List String)
    (functions : String → Option Signature) : String → Option Signature :=
  order.foldl (fun functions iface => enterMethods functions iface (tables iface)) functions

theorem enterAll_other (other : ∀ iface ∈ order, ∀ entry ∈ tables iface,
    methodSymbol iface entry.1 ≠ symbol) : enterAll tables order functions symbol = functions symbol := by
  induction order generalizing functions with
  | nil => rfl
  | cons iface order ih =>
      rw [enterAll, List.foldl_cons, ← enterAll,
        ih fun later member => other later (List.mem_cons_of_mem iface member)]
      exact enterMethods_other (other iface List.mem_cons_self)

theorem enterAll_last {before : List String} {iface method : String} {signature : Signature}
    (distinct : (tables iface).names.Nodup) (member : (method, signature) ∈ tables iface) :
    enterAll tables (before ++ [iface]) functions (methodSymbol iface method) =
      some { signature with params := ("self", .named iface []) :: signature.params } := by
  rw [enterAll, List.foldl_append]
  exact enterMethods_of_mem distinct member

theorem enterAll_of_mem {iface method : String} {signature : Signature}
    (distinct : (tables iface).names.Nodup) (member : (method, signature) ∈ tables iface)
    (listed : iface ∈ order)
    (apart : ∀ other ∈ order, other ≠ iface → ∀ entry ∈ tables other,
      methodSymbol other entry.1 ≠ methodSymbol iface method) :
    enterAll tables order functions (methodSymbol iface method) =
      some { signature with params := ("self", .named iface []) :: signature.params } := by
  induction order using List.reverseRecOn with
  | nil => cases listed
  | append_singleton before last ih =>
      by_cases same : last = iface
      · subst same
        exact enterAll_last distinct member
      · have early : iface ∈ before := by
          rcases List.mem_append.mp listed with early | late
          · exact early
          · exact absurd (List.mem_singleton.mp late).symm same
        have ih := ih early fun other member =>
          apart other (List.mem_append_left _ member)
        have step : enterMethods (enterAll tables before functions) last (tables last)
            (methodSymbol iface method) = enterAll tables before functions _ :=
          enterMethods_other
            (apart last (List.mem_append_right _ (List.mem_singleton_self last)) same)
        rw [enterAll, List.foldl_append]
        exact step.trans ih

/-- Symbols that no two interfaces share do not depend on the order. -/
theorem enterAll_congr {first second : List String} (same : ∀ iface, iface ∈ first ↔ iface ∈ second)
    (distinct : ∀ iface, (tables iface).names.Nodup)
    (apart : ∀ iface other, iface ≠ other → ∀ a ∈ tables iface, ∀ b ∈ tables other,
      methodSymbol iface a.1 ≠ methodSymbol other b.1) :
    enterAll tables first functions = enterAll tables second functions := by
  funext symbol
  by_cases entered : ∃ iface ∈ first, ∃ entry ∈ tables iface, methodSymbol iface entry.1 = symbol
  · rcases entered with ⟨iface, listed, ⟨method, signature⟩, member, rfl⟩
    rw [enterAll_of_mem (distinct iface) member listed,
      enterAll_of_mem (distinct iface) member ((same iface).mp listed)]
    all_goals
      intro other _ different entry memberOther
      exact apart other iface different entry memberOther _ member
  · have absent : ∀ iface ∈ first, ∀ entry ∈ tables iface, methodSymbol iface entry.1 ≠ symbol :=
      fun iface listed entry member here => entered ⟨iface, listed, entry, member, here⟩
    rw [enterAll_other absent, enterAll_other]
    intro iface listed
    exact absent iface ((same iface).mpr listed)

end EnterAll

theorem foldl_registerMethods (s : Checker) (order : List String) :
    order.foldl registerMethods s =
      { s with functions := enterAll s.own order s.functions } := by
  induction order generalizing s with
  | nil => rfl
  | cons iface order ih =>
      rw [List.foldl_cons, registerMethods_eq, ih]
      rfl

section File

variable {functions : String → Option Signature} {file : SourceFile}

/-- The state behind the second pass. -/
def expandAll (functions : String → Option Signature) (file : SourceFile) (orders : Orders file) :
    Checker :=
  orders.extendsOrder.foldl expandInterface (registerAll functions file)

theorem registerDeclarations_eq (orders : Orders file) :
    registerDeclarations functions file orders =
      { expandAll functions file orders with
        functions := enterAll (expandAll functions file orders).own orders.interfaceOrder
          (expandAll functions file orders).functions } :=
  foldl_registerMethods _ _

theorem errors_registerDeclarations (orders : Orders file) :
    (registerDeclarations functions file orders).errors =
      (expandAll functions file orders).errors := by
  rw [registerDeclarations_eq]

theorem interfaces_registerDeclarations (orders : Orders file) :
    (registerDeclarations functions file orders).interfaces =
      (expandAll functions file orders).interfaces := by
  rw [registerDeclarations_eq]

theorem own_registerDeclarations (orders : Orders file) (name : String) :
    (registerDeclarations functions file orders).own name =
      (expandAll functions file orders).own name := by
  rw [Checker.own, interfaces_registerDeclarations, Checker.own]

theorem errors_registerAll : (registerAll functions file).errors = [] := by
  rw [registerAll]
  suffices kept : ∀ (decls : List Decl) (s : Checker),
      (decls.foldl registerDecl s).errors = s.errors from kept _ _
  intro decls
  induction decls with
  | nil => exact fun _ => rfl
  | cons decl decls ih =>
      intro s
      rw [List.foldl_cons, ih]
      cases decl with
      | interface iface =>
          simp only [registerDecl]
          split <;> rfl
      | _ => rfl

theorem Orders.visits (orders : Orders file) (functions : String → Option Signature) :
    Visits (registerAll functions file) orders.extendsOrder where
  once := orders.extends_nodup
  declared name member := by
    rw [registerAll_eq]
    exact declared_of_extends (flattenDecls file) (fun _ none => by cases none) name
      ((orders.mem_extends name).mp member)

theorem Orders.due (orders : Orders file) {name parent : String}
    (extends_ : parent ∈ (registerAll functions file).parents name) :
    name ∈ orders.extendsOrder := by
  rw [orders.mem_extends]
  rw [registerAll_eq] at extends_
  exact isSome_of_parent extends_

theorem parents_of_notMem {orders : Orders file} {name : String}
    (absent : name ∉ orders.extendsOrder) : (registerAll functions file).parents name = [] := by
  rw [List.eq_nil_iff_forall_not_mem]
  exact fun parent extends_ => absent (orders.due extends_)

theorem passing_expandAll (orders : Orders file) :
    Passing (registerAll functions file) (expandAll functions file orders) :=
  passing_run (passing_refl _) (orders.visits functions).declared

theorem mem_interfaceOrder (functions : String → Option Signature) (orders : Orders file)
    (name : String) :
    name ∈ orders.interfaceOrder ↔ ((registerAll functions file).interfaces name).isSome := by
  rw [orders.mem_interface, registerAll_eq functions]

section Forward

variable {rest : Rest}

theorem Shallow.own_expandAll (shallow : Shallow (registerAll functions file)) (orders : Orders file)
    (name : String) :
    (expandAll functions file orders).own name =
      (registerAll functions file).shallowTable name := by
  by_cases due : name ∈ orders.extendsOrder
  · exact shallow.own_eq (orders.visits functions) name due
  · rw [expandAll, own_untouched (orders.visits functions) due, Checker.shallowTable, parents_of_notMem due,
      List.flatMap_nil, List.filter_nil, List.append_nil]

theorem Shallow.closed_registerDeclarations (shallow : Shallow (registerAll functions file))
    (orders : Orders file) :
    Closed (registerAll functions file) (registerDeclarations functions file orders) := by
  apply shallow.closed
  · intro name
    rw [interfaces_registerDeclarations]
    exact (passing_expandAll orders).declared name
  · intro name
    rw [own_registerDeclarations]
    exact shallow.own_expandAll orders name

theorem Shallow.reported (shallow : Shallow (registerAll functions file)) (orders : Orders file) :
    Reported (registerAll functions file) (registerDeclarations functions file orders) := by
  intro name first second method familyFirst familySecond clash
  rcases shallow.shown name first second method familyFirst familySecond clash with
    ⟨member, parent, family, direct⟩
  rcases reported_of_directClash (orders.visits functions) (shallow.distinct member) (orders.due direct.1)
    direct with ⟨found, reported⟩
  rw [errors_registerDeclarations]
  exact ⟨member, found, family, reported⟩

theorem interfaces_eq {s t : Checker} (own : ∀ name, s.own name = t.own name)
    (declared : ∀ name, (s.interfaces name).isSome ↔ (t.interfaces name).isSome) :
    s.interfaces = t.interfaces := by
  funext name
  have sameMethods := own name
  have sameDeclared := declared name
  rw [Checker.own, Checker.own] at sameMethods
  cases tableS : s.interfaces name with
  | none =>
      rw [tableS] at sameDeclared
      cases tableT : t.interfaces name with
      | none => rfl
      | some methods =>
          rw [tableT] at sameDeclared
          exact absurd (sameDeclared.mpr rfl) (by simp)
  | some methods =>
      rw [tableS] at sameDeclared
      rcases Option.isSome_iff_exists.mp (sameDeclared.mp rfl) with ⟨found, tableT⟩
      rw [tableS, tableT] at sameMethods
      rw [tableT]
      exact congrArg some sameMethods

theorem Shallow.sameTables (shallow : Shallow (registerAll functions file))
    (first second : Orders file) :
    (registerDeclarations functions file first).interfaces =
        (registerDeclarations functions file second).interfaces ∧
      (registerDeclarations functions file first).functions =
        (registerDeclarations functions file second).functions := by
  have own : (expandAll functions file first).own = (expandAll functions file second).own := by
    funext name
    rw [shallow.own_expandAll, shallow.own_expandAll]
  constructor
  · rw [interfaces_registerDeclarations, interfaces_registerDeclarations]
    apply interfaces_eq (congrFun own)
    intro name
    rw [(passing_expandAll first).declared, (passing_expandAll second).declared]
  · have closed := shallow.closed_registerDeclarations second
    rw [registerDeclarations_eq, registerDeclarations_eq]
    simp only
    rw [own, (passing_expandAll first).functions, (passing_expandAll second).functions]
    apply enterAll_congr
    · intro iface
      rw [mem_interfaceOrder functions, mem_interfaceOrder functions]
    · intro iface
      rw [← own_registerDeclarations]
      exact closed.once iface
    · intro iface other different a memberA b memberB
      rw [← own_registerDeclarations] at memberA memberB
      rcases closed.sound iface a memberA with ⟨farA, familyA, declaresA⟩
      rcases closed.sound other b memberB with ⟨farB, familyB, declaresB⟩
      exact shallow.symbols iface other a.1 b.1 different
        ⟨farA, familyA, List.mem_map_of_mem declaresA⟩
        ⟨farB, familyB, List.mem_map_of_mem declaresB⟩

theorem Shallow.errors_ne_nil (shallow : Shallow (registerAll functions file))
    (first second : Orders file) {e : TypeError}
    (member : e ∈ (expandAll functions file first).errors) :
    ∃ e, e ∈ (expandAll functions file second).errors := by
  rcases mem_errors_of_run (first.visits functions) errors_registerAll member with
    ⟨name, parent, extends_, missing, -⟩ |
      ⟨before, name, after, parent, method, a, b, order, -, own, inherits, differ⟩
  · -- The parent is missing in the other order, too.
    rcases List.append_of_mem (second.due extends_) with ⟨before, after, order⟩
    have visits := second.visits functions
    rw [order] at visits
    have passing := passing_run (passing_refl (registerAll functions file)) visits.left.declared
    rw [expandAll, order, List.foldl_append, List.foldl_cons]
    refine ⟨.undefinedInterface parent, errors_run (undefined_expandInterface ?_ ?_)⟩
    · rw [passing.parents]
      exact extends_
    · rw [Option.isNone_iff_eq_none] at missing ⊢
      rw [← Option.not_isSome_iff_eq_none, passing.declared, missing]
      exact Bool.false_ne_true
  · rw [List.mem_flatMap] at inherits
    rcases inherits with ⟨found, extends_, inherited⟩
    have visits := first.visits functions
    rw [order] at visits
    rcases sound_run visits.left found _ inherited with ⟨far, family, declares⟩
    have different : name ≠ far := by
      rintro rfl
      have here := find?_eq_of_mem (shallow.distinct name) own
      rw [find?_eq_of_mem (shallow.distinct name) declares] at here
      cases here
      rw [signaturesMatch_refl] at differ
      cases differ
    have familyFar := family_trans (family_parent extends_) family
    have clash : (registerAll functions file).Clash name far method :=
      ⟨different, a, b, own, declares, differ, .inl familyFar⟩
    rcases shallow.reported second name name far method (family_refl name) familyFar clash with
      ⟨_, _, _, reported⟩
    rw [errors_registerDeclarations] at reported
    exact ⟨_, reported⟩

theorem verdict_congr {s t : Checker} (interfaces : s.interfaces = t.interfaces)
    (implementations : s.interfaceImplementations = t.interfaceImplementations)
    (symbols : s.functions = t.functions) (errors : s.errors.isEmpty = t.errors.isEmpty) :
    verdict rest file s = verdict rest file t := by
  rcases s with ⟨_, _, _, _, errorsS⟩
  rcases t with ⟨_, _, _, _, errorsT⟩
  cases interfaces
  cases implementations
  cases symbols
  rw [verdict, verdict]
  simp only at errors ⊢
  rw [errors]
  rfl

theorem Shallow.sameVerdict (shallow : Shallow (registerAll functions file))
    (first second : Orders file) :
    verdict rest file (registerDeclarations functions file first) =
      verdict rest file (registerDeclarations functions file second) := by
  rcases shallow.sameTables first second with ⟨interfaces, symbols⟩
  apply verdict_congr interfaces ?_ symbols
  · rw [errors_registerDeclarations, errors_registerDeclarations, Bool.eq_iff_iff,
      List.isEmpty_iff, List.isEmpty_iff, List.eq_nil_iff_forall_not_mem,
      List.eq_nil_iff_forall_not_mem]
    constructor
    · intro none e member
      rcases shallow.errors_ne_nil second first member with ⟨other, reported⟩
      exact none other reported
    · intro none e member
      rcases shallow.errors_ne_nil first second member with ⟨other, reported⟩
      exact none other reported
  · rw [registerDeclarations_eq, registerDeclarations_eq]
    exact (passing_expandAll first).implementations.trans
      (passing_expandAll second).implementations.symm

end Forward

section Backward

theorem pairwise_filter_append (keys : List String) (first : String → Bool) :
    (keys.filter first ++ keys.filter fun name => !first name).Pairwise fun a b =>
      first b = true → first a = true := by
  rw [List.pairwise_append]
  refine ⟨?_, ?_, ?_⟩
  · apply List.pairwise_of_forall_mem_list
    intro a member b _ _
    exact (List.mem_filter.mp member).2
  · apply List.pairwise_of_forall_mem_list
    intro a _ b member chosen
    have other := (List.mem_filter.mp member).2
    rw [chosen] at other
    cases other
  · intro a member b _ _
    exact (List.mem_filter.mp member).2

variable {first firstTable : String → Bool} {before after : List String} {name : String}

theorem Orders.sorted_pairwise
    (order : (Orders.sorted file first firstTable).extendsOrder = before ++ name :: after) :
    (before ++ name :: after).Pairwise fun a b => first b = true → first a = true := by
  rw [← order]
  exact pairwise_filter_append _ first

theorem Orders.sorted_before
    (order : (Orders.sorted file first firstTable).extendsOrder = before ++ name :: after)
    (chosen : first name = true) : ∀ other ∈ before, first other = true := by
  have pairwise := List.pairwise_append.mp (Orders.sorted_pairwise order)
  exact fun other member => pairwise.2.2 other member name List.mem_cons_self chosen

theorem Orders.sorted_after
    (order : (Orders.sorted file first firstTable).extendsOrder = before ++ name :: after)
    (other : first name = false) : ∀ later ∈ after, first later = false := by
  have pairwise := Orders.sorted_pairwise order
  rw [List.pairwise_append, List.pairwise_cons] at pairwise
  intro later member
  rw [← Bool.not_eq_true]
  intro chosen
  rw [pairwise.2.1.1 later member chosen] at other
  cases other

variable {rest : Rest}

theorem OrderFree.distinct (free : OrderFree functions rest file) (name : String) :
    ((registerAll functions file).own name).names.Nodup := by
  let orders := Orders.sorted file (fun _ => true) fun _ => true
  have once := (free.closed orders).once name
  rw [own_registerDeclarations] at once
  exact once.sublist ((own_subset_run (orders.visits functions) name).sublist.map _)

/-- An interface whose turn comes first inherits what its parents declare. -/
theorem OrderFree.near (free : OrderFree functions rest file) (name method : String)
    (provides : (registerAll functions file).Provides name method) :
    method ∈ ((registerAll functions file).own name).names ∨
      ∃ parent ∈ (registerAll functions file).parents name,
        method ∈ ((registerAll functions file).own parent).names := by
  let orders := Orders.sorted file (fun other => other == name) fun _ => true
  have complete := (free.closed orders).complete name method provides
  rw [own_registerDeclarations] at complete
  have visits := orders.visits functions
  by_cases due : name ∈ orders.extendsOrder
  · rcases List.append_of_mem due with ⟨before, after, order⟩
    have alone : before = [] := by
      rw [List.eq_nil_iff_forall_not_mem]
      intro other member
      have same := Orders.sorted_before order (beq_self_eq_true name) other member
      rw [beq_iff_eq] at same
      subst same
      have once := orders.extends_nodup
      rw [order] at once
      exact (List.nodup_append.mp once).2.2 other member other List.mem_cons_self rfl
    subst alone
    rw [order] at visits
    rw [expandAll, order, own_run visits.declared visits.once, Methods.names, List.map_append,
      List.mem_append] at complete
    rcases complete with own | inherited
    · exact .inl own
    · rcases List.mem_map.mp inherited with ⟨entry, member, rfl⟩
      rw [List.mem_filter, List.mem_flatMap] at member
      rcases member.1 with ⟨parent, extends_, declares⟩
      exact .inr ⟨parent, extends_, List.mem_map_of_mem declares⟩
  · rw [expandAll, own_untouched visits due] at complete
    exact .inl complete

theorem OrderFree.single (free : OrderFree functions rest file) (name : String) :
    ((registerAll functions file).parents name).Pairwise fun first second =>
      first ≠ name → second ≠ name →
        ∀ method, method ∉ ((registerAll functions file).own name).names →
          (registerAll functions file).Provides first method →
            ¬ (registerAll functions file).Provides second method := by
  let orders := Orders.sorted file (fun other => other != name) fun _ => true
  have closed := free.closed orders
  have visits := orders.visits functions
  by_cases due : name ∈ orders.extendsOrder
  · rcases List.append_of_mem due with ⟨before, after, order⟩
    have once := closed.once name
    rw [order] at visits
    rw [own_registerDeclarations, expandAll, order, own_run visits.declared visits.once,
      Methods.names, List.map_append, List.filter_flatMap, List.map_flatMap] at once
    have disjoint := (List.nodup_flatMap.mp (List.nodup_append.mp once).2.1).2
    -- The tables of the other interfaces are final.
    have final : ∀ other, other ≠ name →
        (before.foldl expandInterface (registerAll functions file)).own other =
          (registerDeclarations functions file orders).own other := by
      intro other different
      have last : other ∉ name :: after := by
        intro member
        rcases List.mem_cons.mp member with same | later
        · exact different same
        · have chosen := Orders.sorted_after order (bne_self_eq_false name) other later
          rw [bne_eq_false_iff_eq] at chosen
          exact different chosen
      have declaredLast : ∀ later ∈ name :: after,
          ((registerAll functions file).interfaces later).isSome := fun later member =>
        visits.declared later (List.mem_append_right before member)
      rw [own_registerDeclarations, expandAll, order, List.foldl_append, Checker.own, Checker.own,
        untouched_run (passing_run (passing_refl _) visits.left.declared) declaredLast last]
    apply disjoint.imp
    intro first second apart notFirst notSecond method new providesFirst providesSecond
    have inFirst := closed.complete first method providesFirst
    have inSecond := closed.complete second method providesSecond
    rw [← final first notFirst] at inFirst
    rw [← final second notSecond] at inSecond
    have kept : ∀ other,
        method ∈ ((before.foldl expandInterface (registerAll functions file)).own other).names →
        method ∈ (((before.foldl expandInterface (registerAll functions file)).own other).filter
          (fresh ((registerAll functions file).own name))).map Prod.fst := by
      intro other inside
      rcases mem_names.mp inside with ⟨signature, member⟩
      exact List.mem_map.mpr ⟨_, List.mem_filter.mpr ⟨member, fresh_iff.mpr new⟩, rfl⟩
    exact apart (kept first inFirst) (kept second inSecond)
  · rw [parents_of_notMem due]
    exact List.Pairwise.nil

/-- Interfaces that declare a method are not told about conflicts in the
methods that they inherit. -/
theorem OrderFree.shown (free : OrderFree functions rest file) (name first second method : String)
    (familyFirst : (registerAll functions file).Family name first)
    (familySecond : (registerAll functions file).Family name second)
    (clash : (registerAll functions file).Clash first second method) :
    ∃ member parent, (registerAll functions file).Family name member ∧
      (registerAll functions file).DirectClash member parent method := by
  let declares : String → Bool := fun other =>
    ((registerAll functions file).own other).names.contains method
  let orders := Orders.sorted file declares fun _ => true
  have visits := orders.visits functions
  rcases free.reported orders name first second method familyFirst familySecond clash with
    ⟨member, _, family, reported⟩
  rw [errors_registerDeclarations] at reported
  rcases mem_errors_of_run visits errors_registerAll reported with
    ⟨_, _, _, _, same⟩ | ⟨before, due, after, _, found, a, b, order, same, own, inherits, differ⟩
  · cases same
  · cases same
    rw [List.mem_flatMap] at inherits
    rcases inherits with ⟨parent, extends_, inherited⟩
    rw [order] at visits
    refine ⟨member, parent, family, extends_, a, b, own, ?_, differ⟩
    by_cases processed : parent ∈ before
    · have ownMethod : declares member = true :=
        List.contains_iff_mem.mpr (List.mem_map_of_mem own)
      have parentMethod : method ∈ ((registerAll functions file).own parent).names :=
        List.contains_iff_mem.mp (Orders.sorted_before order ownMethod parent processed)
      rcases List.append_of_mem processed with ⟨earlier, later, rfl⟩
      rw [own_run visits.left.declared visits.left.once, List.mem_append, List.mem_filter,
        fresh_iff] at inherited
      rcases inherited with declared | ⟨_, new⟩
      · exact declared
      · exact absurd parentMethod new
    · rw [own_untouched visits.left processed] at inherited
      exact inherited

theorem OrderFree.entry (free : OrderFree functions rest file) (name method : String)
    (provides : (registerAll functions file).Provides name method) :
    ∃ (orders : Orders file) (signature : Signature),
      (registerDeclarations functions file orders).functions (methodSymbol name method) =
        some { signature with params := ("self", .named name []) :: signature.params } := by
  let orders := Orders.sorted file (fun _ => true) fun other => other != name
  have closed := free.closed orders
  rcases mem_names.mp (closed.complete name method provides) with ⟨signature, member⟩
  refine ⟨orders, signature, ?_⟩
  have declared : name ∈ orders.interfaceOrder := by
    rw [mem_interfaceOrder functions, ← closed.declared name]
    rw [Checker.own] at member
    cases table : (registerDeclarations functions file orders).interfaces name with
    | none =>
        rw [table] at member
        cases member
    | some methods => rfl
  have last : ∃ before, orders.interfaceOrder = before ++ [name] := by
    rcases List.append_of_mem declared with ⟨before, after, order⟩
    suffices after = [] by
      rw [this] at order
      exact ⟨before, order⟩
    rw [List.eq_nil_iff_forall_not_mem]
    intro other later
    have once := orders.interface_nodup
    have pairwise := pairwise_filter_append (tableNames file) fun other => other != name
    have order' : _ = before ++ name :: after := order
    simp only [orders, Orders.sorted] at order'
    rw [order', List.pairwise_append, List.pairwise_cons] at pairwise
    rw [order] at once
    have same : other = name := by
      by_contra different
      have chosen := pairwise.2.1.1 other later (bne_iff_ne.mpr different)
      rw [bne_self_eq_false] at chosen
      cases chosen
    subst same
    exact (List.nodup_cons.mp (List.nodup_append.mp once).2.1).1 later
  rcases last with ⟨before, order⟩
  have once := closed.once name
  rw [own_registerDeclarations] at once member
  rw [registerDeclarations_eq, order]
  exact enterAll_last once member

theorem OrderFree.symbols (free : OrderFree functions rest file)
    (first second method other : String) (different : first ≠ second)
    (provides : (registerAll functions file).Provides first method)
    (provides' : (registerAll functions file).Provides second other) :
    methodSymbol first method ≠ methodSymbol second other := by
  intro same
  rcases free.entry first method provides with ⟨orders, signature, entry⟩
  rcases free.entry second other provides' with ⟨orders', signature', entry'⟩
  rw [(free.sameTables orders orders').2, same, entry'] at entry
  have signatures := Option.some.inj entry
  have params := congrArg Signature.params signatures
  have self := congrArg Prod.snd (List.cons.inj params).1
  injection self with names
  exact different names.symm

end Backward

end File

/-- `interface A { fn m(): Int64; }`, `interface B extends A { }`,
`interface C extends B { }` and `class K implements C { }`. -/
def chain : SourceFile where
  decls :=
    [.interface
      { name := "A", extends_ := [], doc := none, annotations := []
        methods :=
          [{ name := "m", typeParams := [], params := [], retType := .int64, body := .block [],
             isAsync := false, doc := none, annotations := [] }] },
     .interface { name := "B", methods := [], extends_ := ["A"], doc := none, annotations := [] },
     .interface { name := "C", methods := [], extends_ := ["B"], doc := none, annotations := [] },
     .class_
      { name := "K", typeParams := [], extends_ := none, implements := ["C"], fields := [],
        methods := [], doc := none, annotations := [] }]

/-- A checker without other symbols and checks. -/
def bare : Rest where
  inheritClasses := id
  accepts _ _ := true

end Tinox.Check
