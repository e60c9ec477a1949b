import Mathlib.Data.List.Nodup
import Mathlib.Logic.Function.Basic

/-!
# Channels

A channel is a linked queue in memory with pointers to its first and its last
node.  Any threads send and receive, each call being one step under the mutex.
-/

namespace Tinox.Runtime.Channel

/-- Addresses; `NULL` is `none`. -/
abbrev Ptr := Nat

/-- `TinoxChannelNode`. -/
structure Node where
  value : Int64
  next : Option Ptr

/-- The memory of the nodes. -/
abbrev Memory := Ptr → Option Node

/-- `TinoxChannel`, with the memory it is in. -/
structure TinoxChannel where
  memory : Memory
  head : Option Ptr
  tail : Option Ptr

/-- `tinox_channel_create`. -/
def tinoxChannelCreate : TinoxChannel :=
  ⟨fun _ => none, none, none⟩

/-- `tinox_channel_send` with a new node; `none` is an access to freed memory. -/
def tinoxChannelSend (ch : TinoxChannel) (node : Ptr) (value : Int64) : Option TinoxChannel :=
  let memory := Function.update ch.memory node (some ⟨value, none⟩)
  match ch.tail with
  | none => some ⟨memory, some node, some node⟩
  | some tail =>
      match memory tail with
      | none => none
      | some last =>
          some ⟨Function.update memory tail (some ⟨last.value, some node⟩), ch.head, some node⟩

/-- Take the first node and free it (in `tinox_channel_recv` and `tinox_channel_try_recv`). -/
def takeFirst (ch : TinoxChannel) (node : Ptr) : Option (Int64 × TinoxChannel) :=
  match ch.memory node with
  | none => none
  | some first =>
      some (first.value, ⟨Function.update ch.memory node none, first.next,
        if first.next = none then none else ch.tail⟩)

/-- `tinox_channel_recv` of a channel that is not empty. -/
def tinoxChannelRecv (ch : TinoxChannel) : Option (Int64 × TinoxChannel) :=
  match ch.head with
  | none => none
  | some node => takeFirst ch node

/-- `tinox_channel_try_recv`; `some (none, _)` is the answer 0. -/
def tinoxChannelTryRecv (ch : TinoxChannel) : Option (Option Int64 × TinoxChannel) :=
  match ch.head with
  | none => some (none, ch)
  | some node => (takeFirst ch node).map fun result => (some result.1, result.2)

/-- What a thread did. -/
inductive Event where
  | send (thread : Nat) (value : Int64)
  | recv (thread : Nat) (value : Int64)
  | tryRecv (thread : Nat) (answer : Option Int64)

/-- The value that is sent. -/
def Event.sent? : Event → Option Int64
  | .send _ value => some value
  | .recv .. | .tryRecv .. => none

/-- The value that is received. -/
def Event.received? : Event → Option Int64
  | .recv _ value => some value
  | .tryRecv _ answer => answer
  | .send .. => none

/-- The values that are sent, in lock order. -/
def sent (events : List Event) : List Int64 :=
  events.filterMap Event.sent?

/-- The values that are received, in lock order. -/
def received (events : List Event) : List Int64 :=
  events.filterMap Event.received?

/-- One call of a thread; a new node is any address that is not in use. -/
inductive Step : TinoxChannel → Event → TinoxChannel → Prop where
  | send {ch ch' node value} (thread : Nat) : ch.memory node = none →
      tinoxChannelSend ch node value = some ch' → Step ch (.send thread value) ch'
  | recv {ch ch' value} (thread : Nat) : ch.head ≠ none →
      tinoxChannelRecv ch = some (value, ch') → Step ch (.recv thread value) ch'
  | tryRecv {ch ch' answer} (thread : Nat) :
      tinoxChannelTryRecv ch = some (answer, ch') → Step ch (.tryRecv thread answer) ch'

/-- A new channel after these events, in lock order. -/
inductive Run : List Event → TinoxChannel → Prop where
  | create : Run [] tinoxChannelCreate
  | step {events ch event ch'} : Run events ch → Step ch event ch' → Run (events ++ [event]) ch'

/-- A linked list in memory from a pointer on. -/
def Linked (memory : Memory) : Option Ptr → List (Ptr × Int64) → Prop
  | first, [] => first = none
  | first, (node, value) :: rest =>
      first = some node ∧ ∃ next, memory node = some ⟨value, next⟩ ∧ Linked memory next rest

/-- The linked list of the queue, whose last node is the tail. -/
structure Queue (ch : TinoxChannel) (nodes : List (Ptr × Int64)) : Prop where
  linked : Linked ch.memory ch.head nodes
  distinct : (nodes.map Prod.fst).Nodup
  tail : ch.tail = nodes.getLast?.map Prod.fst

variable {memory : Memory} {first : Option Ptr} {nodes : List (Ptr × Int64)}

theorem linked_update (linked : Linked memory first nodes) {other : Ptr}
    (apart : other ∉ nodes.map Prod.fst) (content : Option Node) :
    Linked (Function.update memory other content) first nodes := by
  induction nodes generalizing first with
  | nil => exact linked
  | cons entry rest ih =>
      rcases entry with ⟨node, value⟩
      rcases linked with ⟨isFirst, next, here, more⟩
      rw [List.map_cons, List.mem_cons, not_or] at apart
      exact ⟨isFirst, next, (Function.update_of_ne (Ne.symm apart.1) ..).trans here, ih more apart.2⟩

theorem linked_snoc {last : Ptr × Int64} (linked : Linked memory first (nodes ++ [last]))
    (distinct : ((nodes ++ [last]).map Prod.fst).Nodup) {node : Ptr} {value : Int64}
    (new : memory node = some ⟨value, none⟩) (fresh : node ∉ (nodes ++ [last]).map Prod.fst) :
    Linked (Function.update memory last.1 (some ⟨last.2, some node⟩)) first
      (nodes ++ [last] ++ [(node, value)]) := by
  induction nodes generalizing first with
  | nil =>
      rcases linked with ⟨isFirst, next, here, rest⟩
      have apart : node ≠ last.1 := fun same => fresh (same ▸ List.mem_cons_self)
      exact ⟨isFirst, some node, Function.update_self .., rfl, none,
        (Function.update_of_ne apart ..).trans new, rfl⟩
  | cons entry rest ih =>
      rcases linked with ⟨isFirst, next, here, more⟩
      rw [List.cons_append, List.map_cons, List.nodup_cons] at distinct
      rw [List.cons_append, List.map_cons, List.mem_cons, not_or] at fresh
      have apart : entry.1 ≠ last.1 := by
        intro same
        apply distinct.1
        rw [same, List.map_append]
        exact List.mem_append_right _ List.mem_cons_self
      exact ⟨isFirst, next, (Function.update_of_ne apart ..).trans here,
        ih more distinct.2 fresh.2⟩

theorem linked_last {last : Ptr × Int64} (linked : Linked memory first (nodes ++ [last])) :
    memory last.1 = some ⟨last.2, none⟩ := by
  induction nodes generalizing first with
  | nil =>
      rcases linked with ⟨-, next, here, isLast⟩
      rw [here, show next = none from isLast]
  | cons entry rest ih =>
      rcases linked with ⟨-, next, -, more⟩
      exact ih more

theorem Linked.used (linked : Linked memory first nodes) {node : Ptr}
    (member : node ∈ nodes.map Prod.fst) : memory node ≠ none := by
  induction nodes generalizing first with
  | nil => cases member
  | cons entry rest ih =>
      rcases linked with ⟨-, next, here, more⟩
      rw [List.map_cons, List.mem_cons] at member
      rcases member with rfl | member
      · rw [here]
        nofun
      · exact ih more member

namespace Queue

variable {ch ch' : TinoxChannel} {nodes : List (Ptr × Int64)}

theorem create : Queue tinoxChannelCreate [] :=
  ⟨rfl, List.nodup_nil, rfl⟩

theorem send (queue : Queue ch nodes) {node : Ptr} (fresh : ch.memory node = none) (value : Int64) :
    ∃ ch', tinoxChannelSend ch node value = some ch' ∧ Queue ch' (nodes ++ [(node, value)]) := by
  have notIn : node ∉ nodes.map Prod.fst := fun member => queue.linked.used member fresh
  have distinct : ((nodes ++ [(node, value)]).map Prod.fst).Nodup := by
    rw [List.map_append, List.nodup_append]
    refine ⟨queue.distinct, List.nodup_singleton _, ?_⟩
    intro other member new isNew same
    rw [same, List.mem_singleton.mp isNew] at member
    exact notIn member
  have newTail : some node = (nodes ++ [(node, value)]).getLast?.map Prod.fst := by
    rw [List.getLast?_append, List.getLast?_singleton]
    rfl
  have linked := linked_update queue.linked notIn (some ⟨value, none⟩)
  have here : Function.update ch.memory node (some ⟨value, none⟩) node = some ⟨value, none⟩ :=
    Function.update_self ..
  rcases List.eq_nil_or_concat' nodes with rfl | ⟨front, last, rfl⟩
  · have noTail : ch.tail = none := queue.tail
    refine ⟨_, by rw [tinoxChannelSend, noTail], ?_, distinct, newTail⟩
    exact ⟨rfl, none, here, rfl⟩
  · have isTail : ch.tail = some last.1 := by
      rw [queue.tail, List.getLast?_append, List.getLast?_singleton]
      rfl
    refine ⟨⟨Function.update (Function.update ch.memory node (some ⟨value, none⟩)) last.1
      (some ⟨last.2, some node⟩), ch.head, some node⟩, ?_,
      linked_snoc linked queue.distinct here notIn, distinct, newTail⟩
    rw [tinoxChannelSend, isTail]
    simp only [linked_last linked]

theorem takeFirst {node : Ptr} {value : Int64} (queue : Queue ch ((node, value) :: nodes)) :
    ∃ ch', takeFirst ch node = some (value, ch') ∧ Queue ch' nodes := by
  rcases queue.linked with ⟨-, next, here, more⟩
  have distinct := queue.distinct
  rw [List.map_cons, List.nodup_cons] at distinct
  refine ⟨_, by rw [Channel.takeFirst, here], linked_update more distinct.1 none, distinct.2, ?_⟩
  cases nodes with
  | nil => exact if_pos more
  | cons entry rest =>
      have some_ : next ≠ none := by
        rw [more.1]
        nofun
      change (if next = none then none else ch.tail) = _
      rw [if_neg some_, queue.tail, List.getLast?_cons_cons]

theorem head_iff (queue : Queue ch nodes) : ch.head = none ↔ nodes = [] := by
  cases nodes with
  | nil => exact ⟨fun _ => rfl, fun _ => queue.linked⟩
  | cons entry rest =>
      constructor
      · intro empty
        rw [queue.linked.1] at empty
        cases empty
      · intro empty
        cases empty

/-- What receiving does: nothing from an empty queue, else it takes the first node. -/
theorem tryRecv (queue : Queue ch nodes) :
    (nodes = [] ∧ tinoxChannelTryRecv ch = some (none, ch)) ∨
      ∃ first rest ch', nodes = first :: rest ∧ tinoxChannelRecv ch = some (first.2, ch') ∧
        tinoxChannelTryRecv ch = some (some first.2, ch') ∧ Queue ch' rest := by
  cases nodes with
  | nil =>
      refine Or.inl ⟨rfl, ?_⟩
      rw [tinoxChannelTryRecv, queue.head_iff.mpr rfl]
  | cons first rest =>
      rcases queue.takeFirst with ⟨ch', taken, queue'⟩
      refine Or.inr ⟨first, rest, ch', rfl, ?_, ?_, queue'⟩
      · rw [tinoxChannelRecv, queue.linked.1]
        exact taken
      · rw [tinoxChannelTryRecv, queue.linked.1]
        simp only [taken, Option.map_some]

end Queue

/-- The messages of a channel after these events: what was sent is what was received and
then what is in the queue. -/
structure Delivers (events : List Event) (ch : TinoxChannel) : Prop where
  queued : ∃ nodes, Queue ch nodes ∧ sent events = received events ++ nodes.map Prod.snd
  inOrder : received events <+: sent events
  empty : ch.head = none ↔ ch.tail = none
  send : ∀ node value, ch.memory node = none → ∃ ch', tinoxChannelSend ch node value = some ch'
  recv : ch.head ≠ none → ∃ value ch', tinoxChannelRecv ch = some (value, ch')
  tryRecv : ∃ answer ch', tinoxChannelTryRecv ch = some (answer, ch') ∧
    (answer = none ↔ received events = sent events)

theorem Queue.delivers {events : List Event} {ch : TinoxChannel} (queue : Queue ch nodes)
    (all : sent events = received events ++ nodes.map Prod.snd) : Delivers events ch where
  queued := ⟨nodes, queue, all⟩
  inOrder := ⟨_, all.symm⟩
  empty := by
    rw [queue.head_iff, queue.tail, Option.map_eq_none_iff, List.getLast?_eq_none_iff]
  send node value fresh := by
    rcases queue.send fresh value with ⟨ch', isSent, -⟩
    exact ⟨ch', isSent⟩
  recv notEmpty := by
    rcases queue.tryRecv with ⟨empty, -⟩ | ⟨first, rest, ch', -, taken, -, -⟩
    · exact absurd (queue.head_iff.mpr empty) notEmpty
    · exact ⟨first.2, ch', taken⟩
  tryRecv := by
    rw [all]
    rcases queue.tryRecv with ⟨rfl, isEmpty⟩ | ⟨first, rest, ch', rfl, -, taken, -⟩
    · refine ⟨none, ch, isEmpty, ⟨fun _ => ?_, fun _ => rfl⟩⟩
      rw [List.map_nil, List.append_nil]
    · refine ⟨some first.2, ch', taken, ⟨fun impossible => (by cases impossible), fun same => ?_⟩⟩
      have longer := congrArg List.length same
      rw [List.length_append, List.map_cons, List.length_cons] at longer
      omega

theorem filterMap_snoc (f : Event → Option Int64) (events : List Event) (event : Event) :
    (events ++ [event]).filterMap f = events.filterMap f ++ (f event).toList := by
  rw [List.filterMap_append]
  cases isValue : f event <;> simp [isValue]

theorem step_queue {events : List Event} {ch ch' : TinoxChannel} {event : Event}
    (queue : Queue ch nodes) (all : sent events = received events ++ nodes.map Prod.snd)
    (step : Step ch event ch') : ∃ nodes', Queue ch' nodes' ∧
      sent (events ++ [event]) = received (events ++ [event]) ++ nodes'.map Prod.snd := by
  rw [sent, received, filterMap_snoc, filterMap_snoc, ← sent, ← received, all]
  cases step with
  | send thread fresh isSent =>
      rename_i node value
      rcases queue.send fresh value with ⟨next, isNext, queue'⟩
      rw [isSent] at isNext
      injection isNext with same
      subst same
      refine ⟨_, queue', ?_⟩
      simp [Event.sent?, Event.received?]
  | recv thread notEmpty taken =>
      rcases queue.tryRecv with ⟨empty, -⟩ | ⟨first, rest, next, rfl, isNext, -, queue'⟩
      · exact absurd (queue.head_iff.mpr empty) notEmpty
      · rw [taken] at isNext
        injection isNext with same
        injection same with sameValue sameChannel
        subst sameValue sameChannel
        refine ⟨rest, queue', ?_⟩
        simp [Event.sent?, Event.received?]
  | tryRecv thread taken =>
      rcases queue.tryRecv with ⟨rfl, isEmpty⟩ | ⟨first, rest, next, rfl, -, isNext, queue'⟩
      · rw [taken] at isEmpty
        injection isEmpty with same
        injection same with sameAnswer sameChannel
        subst sameAnswer sameChannel
        refine ⟨[], queue, ?_⟩
        simp [Event.sent?, Event.received?]
      · rw [taken] at isNext
        injection isNext with same
        injection same with sameAnswer sameChannel
        subst sameAnswer sameChannel
        refine ⟨rest, queue', ?_⟩
        simp [Event.sent?, Event.received?]

theorem Run.queue {events : List Event} {ch : TinoxChannel} (run : Run events ch) :
    ∃ nodes, Queue ch nodes ∧ sent events = received events ++ nodes.map Prod.snd := by
  induction run with
  | create => exact ⟨[], Queue.create, rfl⟩
  | step _ step ih =>
      rcases ih with ⟨nodes, queue, all⟩
      exact step_queue queue all step

/-- Channels deliver each message once and in order. -/
theorem run_delivers {events : List Event} {ch : TinoxChannel} (run : Run events ch) :
    Delivers events ch := by
  rcases run.queue with ⟨nodes, queue, all⟩
  exact queue.delivers all

/-- A queue that becomes empty and is refilled. -/
theorem run_delivers_refilled : ∃ ch,
    Delivers [.send 0 5, .recv 1 5, .tryRecv 1 none, .send 0 6] ch := by
  have first := Run.create.step (@Step.send _ _ 8 5 0 rfl rfl)
  have second := first.step (Step.recv 1 (by nofun) rfl)
  have third := second.step (Step.tryRecv 1 rfl)
  have fourth := third.step (@Step.send _ _ 8 6 0 rfl rfl)
  exact ⟨_, run_delivers fourth⟩

end Tinox.Runtime.Channel
