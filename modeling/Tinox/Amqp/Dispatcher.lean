import Mathlib.Data.List.Nodup
import Mathlib.Logic.Function.Basic
import Tinox.Data.Runs

/-!
# The dispatcher of a connection

One background task reads the frames of an AMQP 0-9-1 connection and puts them into the inboxes of
channels, while any number of threads open channels and receive from them.
-/

namespace Tinox.Amqp.Dispatch

open Runs

/-- `AmqpFrame091`. -/
structure AmqpFrame091 where
  frameType : Int64
  chanId : Nat
  payload : List Int64
  deriving DecidableEq

/-- Where a thread is in `AmqpChannel091::open`, up to `registerChannelInbox`. -/
inductive Opening where
  | idle
  | counted
  | numbered (chanId : Nat)
  | listed (inbox : Nat)

/-- Where `amqp091DispatchLoop` is: at the head of its loop, in `readFrame`, in the loop over the
channels for a frame, after the end of the connection, in the loop that wakes the channels, or at
its end. -/
inductive Dispatcher where
  | atHead
  | reading
  | routing (f : AmqpFrame091) (i n : Nat)
  | failed (f : AmqpFrame091)
  | waking (f : AmqpFrame091) (i n : Nat)
  | ended

/-- The loop that wakes the channels has begun. -/
def Dispatcher.wakes : Dispatcher → Bool
  | .waking .. | .ended => true
  | _ => false

/-- `AmqpConnection091` with its inboxes and the threads that use it. -/
structure Connection where
  channelIds : List Nat
  channelInboxes : List Nat
  connectionInbox : List AmqpFrame091
  dispatcherRunning : Bool
  nextChanId : Nat
  dispatcher : Dispatcher
  /-- What the inboxes hold, and the number of those that have been made. -/
  inboxes : Nat → List AmqpFrame091
  created : Nat
  opening : Nat → Opening
  /-- The number of receives that wait at an inbox. -/
  waiting : Nat → Nat
  /-- Channels with their inboxes, in the order in which their ids were registered. -/
  listed : List (Nat × Nat)
  /-- The frames that have been read for a registered id, and those that have been routed to an
  inbox. -/
  arrived : Nat → List AmqpFrame091
  put : Nat → List AmqpFrame091

/-- The connection that `finishHandshake` returns. -/
def Connection.start : Connection where
  channelIds := []
  channelInboxes := []
  connectionInbox := []
  dispatcherRunning := true
  nextChanId := 0
  dispatcher := .atHead
  inboxes := fun _ => []
  created := 0
  opening := fun _ => .idle
  waiting := fun _ => 0
  listed := []
  arrived := fun _ => []
  put := fun _ => []

inductive Action where
  | count (thread : Nat)
  | number (thread : Nat)
  | pushId (thread : Nat)
  | pushInbox (thread : Nat)
  | wait (inbox : Nat)
  | receive (inbox : Nat)
  | check
  | read (f : AmqpFrame091)
  | route
  | startWaking
  | wake

open Function (update)

/-- One statement of one thread. -/
inductive Step (c : Connection) : Action → Connection → Prop where
  /-- `this.nextChanId = this.nextChanId + 1` in `allocateChanId`. -/
  | count {thread : Nat} : c.opening thread = .idle → Step c (.count thread)
      { c with
        nextChanId := c.nextChanId + 1
        opening := update c.opening thread .counted }
  /-- `return this.nextChanId` in `allocateChanId`. -/
  | number {thread : Nat} : c.opening thread = .counted → Step c (.number thread)
      { c with opening := update c.opening thread (.numbered c.nextChanId) }
  /-- A new inbox, and `this.channelIds.push(chanId)` in `registerChannelInbox`. -/
  | pushId {thread chanId : Nat} : c.opening thread = .numbered chanId → Step c (.pushId thread)
      { c with
        channelIds := c.channelIds ++ [chanId]
        created := c.created + 1
        opening := update c.opening thread (.listed c.created)
        listed := c.listed ++ [(chanId, c.created)] }
  /-- `this.channelInboxes.push(inbox)` in `registerChannelInbox`. -/
  | pushInbox {thread inbox : Nat} : c.opening thread = .listed inbox → Step c (.pushInbox thread)
      { c with
        channelInboxes := c.channelInboxes ++ [inbox]
        opening := update c.opening thread .idle }
  /-- `recv inbox`, which blocks. -/
  | wait {inbox : Nat} : inbox < c.created → Step c (.wait inbox)
      { c with waiting := update c.waiting inbox (c.waiting inbox + 1) }
  /-- The end of `recv inbox`. -/
  | receive {inbox : Nat} {f : AmqpFrame091} {rest : List AmqpFrame091} : 0 < c.waiting inbox →
      c.inboxes inbox = f :: rest → Step c (.receive inbox)
      { c with
        inboxes := update c.inboxes inbox rest
        waiting := update c.waiting inbox (c.waiting inbox - 1) }
  | check : c.dispatcher = .atHead → Step c .check
      { c with dispatcher := if c.dispatcherRunning then .reading else .ended }
  | readEnd {f : AmqpFrame091} : c.dispatcher = .reading → f.frameType = -1 → Step c (.read f)
      { c with
        dispatcherRunning := false
        dispatcher := .failed f }
  | readHeartbeat {f : AmqpFrame091} : c.dispatcher = .reading → f.frameType = 8 → Step c (.read f)
      { c with dispatcher := .atHead }
  | readConnection {f : AmqpFrame091} : c.dispatcher = .reading → f.frameType ≠ -1 →
      f.frameType ≠ 8 → f.chanId = 0 → Step c (.read f)
      { c with
        connectionInbox := c.connectionInbox ++ [f]
        dispatcher := .atHead }
  | readChannel {f : AmqpFrame091} : c.dispatcher = .reading → f.frameType ≠ -1 →
      f.frameType ≠ 8 → f.chanId ≠ 0 → Step c (.read f)
      { c with
        dispatcher := .routing f 0 c.channelIds.length
        arrived :=
          if f.chanId ∈ c.channelIds then update c.arrived f.chanId (c.arrived f.chanId ++ [f])
          else c.arrived }
  | routeTo {f : AmqpFrame091} {i n inbox : Nat} : c.dispatcher = .routing f i n → i < n →
      c.channelIds[i]? = some f.chanId → c.channelInboxes[i]? = some inbox → Step c .route
      { c with
        inboxes := update c.inboxes inbox (c.inboxes inbox ++ [f])
        put := update c.put inbox (c.put inbox ++ [f])
        dispatcher := .routing f (i + 1) n }
  | routePast {f : AmqpFrame091} {i n chanId : Nat} : c.dispatcher = .routing f i n → i < n →
      c.channelIds[i]? = some chanId → chanId ≠ f.chanId → Step c .route
      { c with dispatcher := .routing f (i + 1) n }
  | routeEnd {f : AmqpFrame091} {i n : Nat} : c.dispatcher = .routing f i n → ¬ i < n →
      Step c .route { c with dispatcher := .atHead }
  | startWaking {f : AmqpFrame091} : c.dispatcher = .failed f → Step c .startWaking
      { c with
        connectionInbox := c.connectionInbox ++ [f]
        dispatcher := .waking f 0 c.channelInboxes.length }
  | wake {f : AmqpFrame091} {i n inbox : Nat} : c.dispatcher = .waking f i n → i < n →
      c.channelInboxes[i]? = some inbox → Step c .wake
      { c with
        inboxes := update c.inboxes inbox (c.inboxes inbox ++ [f])
        dispatcher := .waking f (i + 1) n }
  | wakeEnd {f : AmqpFrame091} {i n : Nat} : c.dispatcher = .waking f i n → ¬ i < n →
      Step c .wake { c with dispatcher := .ended }

/-! ## What is wanted -/

/-- Channels and inboxes belong to each other, and what has been routed to an inbox are the frames
that arrived for its channel, in their order; one of them may still be on its way. -/
structure RoutedExactly (c : Connection) : Prop where
  distinctIds : (c.listed.map Prod.fst).Nodup
  distinctInboxes : (c.listed.map Prod.snd).Nodup
  noOther : ∀ inbox, inbox ∉ c.listed.map Prod.snd → c.put inbox = []
  each : ∀ chanId inbox, (chanId, inbox) ∈ c.listed → c.arrived chanId = c.put inbox ∨
    ∃ f i n, c.dispatcher = .routing f i n ∧ f.chanId = chanId ∧
      c.arrived chanId = c.put inbox ++ [f]

/-- The frames that an inbox holds, with those that it still gets when the connection has ended. -/
def Connection.remaining (c : Connection) (inbox : Nat) : Nat :=
  (c.inboxes inbox).length +
    match c.dispatcher with
    | .waking _ i n => ((c.channelInboxes.take n).drop i).count inbox
    | _ => 0

/-- The connection has ended, and a receive waits at an inbox that holds no frame and gets none. -/
def Stranded (c : Connection) : Prop :=
  c.dispatcher.wakes = true ∧ ∃ inbox, 0 < c.waiting inbox ∧ c.remaining inbox = 0

/-- No id is counted while another thread has counted and not returned its own, and none is
registered while another thread has registered its id and not its inbox.  When the connection has
ended, there is a frame for each receive that waits, and from then on for each that begins: a
registered inbox gets one. -/
def Orderly (c : Connection) : Action → Prop
  | .count _ => ∀ thread, c.opening thread ≠ .counted
  | .pushId _ => ∀ thread inbox, c.opening thread ≠ .listed inbox
  | .startWaking => ∀ inbox,
      c.waiting inbox ≤ (c.inboxes inbox).length + c.channelInboxes.count inbox
  | .wait inbox => c.dispatcher.wakes = true → c.waiting inbox < c.remaining inbox
  | _ => True

/-- The states that are reached from the start by all steps, and by orderly ones. -/
abbrev Run : Connection → Prop :=
  Reached (· = .start) Step

abbrev OrderlyRun : Connection → Prop :=
  Reached (· = .start) fun c action c' => Step c action c' ∧ Orderly c action

/-! ## Ids

Threads hold ids that were counted and are not in the list yet. -/

structure Counted (nextId : Nat) (ids : List Nat) (held : Nat → Option Nat) : Prop where
  upTo : ∀ id ∈ ids, id ≤ nextId
  distinct : ids.Nodup
  heldUpTo : ∀ thread id, held thread = some id → id ≤ nextId
  heldByOne : ∀ thread thread' id, held thread = some id → held thread' = some id →
    thread = thread'
  heldUnlisted : ∀ thread id, held thread = some id → id ∉ ids

variable {nextId : Nat} {ids : List Nat} {held : Nat → Option Nat}

theorem Counted.count (counted : Counted nextId ids held) (thread : Nat) :
    Counted (nextId + 1) ids (update held thread (some (nextId + 1))) := by
  have notHeld : ∀ t, held t ≠ some (nextId + 1) := by
    intro t isHeld
    exact absurd (counted.heldUpTo t _ isHeld) (by simp)
  constructor
  · intro id isMem
    exact Nat.le_succ_of_le (counted.upTo id isMem)
  · exact counted.distinct
  · intro t id
    rw [Function.update_apply]
    split
    · rintro ⟨⟩
      exact Nat.le_refl _
    · intro isHeld
      exact Nat.le_succ_of_le (counted.heldUpTo t id isHeld)
  · intro t t' id
    rw [Function.update_apply, Function.update_apply]
    split <;> split
    · simp_all
    · rintro ⟨⟩ isHeld
      exact absurd isHeld (notHeld t')
    · rintro isHeld ⟨⟩
      exact absurd isHeld (notHeld t)
    · exact counted.heldByOne t t' id
  · intro t id
    rw [Function.update_apply]
    split
    · rintro ⟨⟩ isMem
      exact absurd (counted.upTo _ isMem) (by simp)
    · exact counted.heldUnlisted t id

theorem Counted.push (counted : Counted nextId ids held) {thread id : Nat}
    (isHeld : held thread = some id) : Counted nextId (ids ++ [id]) (update held thread none) := by
  have heldStill : ∀ t id', update held thread none t = some id' → t ≠ thread ∧ held t = some id' := by
    intro t id'
    rw [Function.update_apply]
    split
    · simp
    · rename_i isOther
      exact fun isHeld => ⟨isOther, isHeld⟩
  constructor
  · intro id' isMem
    rw [List.mem_append, List.mem_singleton] at isMem
    obtain isMem | rfl := isMem
    · exact counted.upTo id' isMem
    · exact counted.heldUpTo thread id' isHeld
  · rw [List.nodup_append]
    refine ⟨counted.distinct, List.nodup_singleton id, ?_⟩
    rintro id' isMem _ isSingle rfl
    rw [List.mem_singleton] at isSingle
    subst isSingle
    exact counted.heldUnlisted thread _ isHeld isMem
  · intro t id' isHeld'
    exact counted.heldUpTo t id' (heldStill t id' isHeld').2
  · intro t t' id' isHeld' isHeld''
    exact counted.heldByOne t t' id' (heldStill t id' isHeld').2 (heldStill t' id' isHeld'').2
  · intro t id' isHeld' isMem
    obtain ⟨isOther, isHeld'⟩ := heldStill t id' isHeld'
    rw [List.mem_append, List.mem_singleton] at isMem
    obtain isMem | rfl := isMem
    · exact counted.heldUnlisted t id' isHeld' isMem
    · exact isOther (counted.heldByOne t thread id' isHeld' isHeld)

/-! ## Inboxes

Of the inboxes that were made, the last may be held by a thread that has not put it into the list
yet. -/

structure Made (created : Nat) (made inboxes : List Nat) (held : Nat → Option Nat) : Prop where
  below : ∀ inbox ∈ made, inbox < created
  distinct : made.Nodup
  whole : (∀ thread, held thread = none) → inboxes = made
  half : ∀ thread inbox, held thread = some inbox → made = inboxes ++ [inbox]
  heldByOne : ∀ thread thread' inbox inbox', held thread = some inbox →
    held thread' = some inbox' → thread = thread'

variable {created : Nat} {made inboxes : List Nat}

theorem Made.initial (isMade : Made created made inboxes held) : inboxes <+: made := by
  by_cases isHalf : ∃ thread inbox, held thread = some inbox
  · obtain ⟨thread, inbox, isHeld⟩ := isHalf
    rw [isMade.half thread inbox isHeld]
    exact List.prefix_append _ _
  · have noneHeld : ∀ thread, held thread = none := by
      intro thread
      cases isHeld : held thread with
      | none => rfl
      | some inbox => exact absurd ⟨thread, inbox, isHeld⟩ isHalf
    have isWhole := isMade.whole noneHeld
    exact ⟨[], by rw [List.append_nil, isWhole]⟩

theorem Made.make (isMade : Made created made inboxes held)
    (noneHeld : ∀ thread, held thread = none) (thread : Nat) :
    Made (created + 1) (made ++ [created]) inboxes (update held thread (some created)) := by
  have isThread : ∀ t inbox, update held thread (some created) t = some inbox →
      t = thread ∧ created = inbox := by
    intro t inbox
    rw [Function.update_apply, noneHeld t]
    split
    · simp_all
    · simp
  constructor
  · intro inbox isMem
    rw [List.mem_append, List.mem_singleton] at isMem
    obtain isMem | rfl := isMem
    · exact Nat.lt_succ_of_lt (isMade.below inbox isMem)
    · exact Nat.lt_succ_self _
  · rw [List.nodup_append]
    refine ⟨isMade.distinct, List.nodup_singleton _, ?_⟩
    rintro inbox isMem _ isSingle rfl
    rw [List.mem_singleton] at isSingle
    subst isSingle
    exact absurd (isMade.below _ isMem) (Nat.lt_irrefl _)
  · intro isNone
    exact absurd (isNone thread) (by simp)
  · intro t inbox isHeld
    obtain ⟨-, rfl⟩ := isThread t inbox isHeld
    rw [isMade.whole noneHeld]
  · intro t t' inbox inbox' isHeld isHeld'
    rw [(isThread t inbox isHeld).1, (isThread t' inbox' isHeld').1]

theorem Made.push (isMade : Made created made inboxes held) {thread inbox : Nat}
    (isHeld : held thread = some inbox) :
    Made created made (inboxes ++ [inbox]) (update held thread none) := by
  have noneHeld : ∀ t, update held thread none t = none := by
    intro t
    rw [Function.update_apply]
    split
    · rfl
    · rename_i isOther
      cases isHeld' : held t with
      | none => rfl
      | some inbox' => exact absurd (isMade.heldByOne t thread _ _ isHeld' isHeld) isOther
  constructor
  · exact isMade.below
  · exact isMade.distinct
  · intro _
    rw [isMade.half thread inbox isHeld]
  · intro t inbox' isHeld'
    rw [noneHeld t] at isHeld'
    contradiction
  · intro t t' inbox' inbox'' isHeld'
    rw [noneHeld t] at isHeld'
    contradiction

/-- The id that a thread has counted or been given, and not registered. -/
def Opening.chanId (nextChanId : Nat) : Opening → Option Nat
  | .counted => some nextChanId
  | .numbered chanId => some chanId
  | _ => none

/-- The inbox that a thread has not registered yet. -/
def Opening.inbox : Opening → Option Nat
  | .listed inbox => some inbox
  | _ => none

/-- The two lists of the connection are the registered pairs. -/
structure Registered (c : Connection) : Prop where
  ids : c.channelIds = c.listed.map Prod.fst
  counted : Counted c.nextChanId (c.listed.map Prod.fst) (Opening.chanId c.nextChanId ∘ c.opening)
  isMade : Made c.created (c.listed.map Prod.snd) c.channelInboxes (Opening.inbox ∘ c.opening)

variable {c : Connection} {i : Nat}

theorem Registered.listed_of_getElem? (registered : Registered c) {chanId inbox : Nat}
    (isId : c.channelIds[i]? = some chanId) (isInbox : c.channelInboxes[i]? = some inbox) :
    c.listed[i]? = some (chanId, inbox) := by
  have isSnd : (c.listed.map Prod.snd)[i]? = some inbox := by
    obtain ⟨rest, isWhole⟩ := registered.isMade.initial
    obtain ⟨isIn, -⟩ := List.getElem?_eq_some_iff.mp isInbox
    rw [← isWhole, List.getElem?_append_left isIn, isInbox]
  rw [registered.ids, List.getElem?_map] at isId
  rw [List.getElem?_map] at isSnd
  cases isPair : c.listed[i]? with
  | none => simp [isPair] at isId
  | some pair => simp_all [Prod.ext_iff]

theorem Registered.start : Registered .start where
  ids := rfl
  counted := by constructor <;> simp [Connection.start, Opening.chanId]
  isMade := by constructor <;> simp [Connection.start, Opening.inbox]

theorem comp_update_same {α β : Type} (f : α → β) {g : Nat → α} {a : α} (isSame : f a = f (g i)) :
    f ∘ update g i a = f ∘ g := by
  rw [Function.comp_update, isSame]
  exact Function.update_eq_self i (f ∘ g)

theorem Registered.step {c c' : Connection} {action : Action} (registered : Registered c)
    (isStep : Step c action c') (isOrderly : Orderly c action) : Registered c' := by
  cases isStep with
  | @count thread isIdle =>
      constructor
      · exact registered.ids
      · have isHeld : Opening.chanId (c.nextChanId + 1) ∘ c.opening
            = Opening.chanId c.nextChanId ∘ c.opening := by
          funext t
          cases isOpening : c.opening t with
          | counted => exact absurd isOpening (isOrderly t)
          | _ => simp [isOpening, Opening.chanId]
        rw [Function.comp_update, isHeld]
        exact registered.counted.count thread
      · have isHeld : Opening.inbox .counted = (c.opening thread).inbox := by
          rw [isIdle]
          rfl
        rw [comp_update_same Opening.inbox isHeld]
        exact registered.isMade
  | @number thread isCounted =>
      constructor
      · exact registered.ids
      · have isHeld : Opening.chanId c.nextChanId (.numbered c.nextChanId)
            = (c.opening thread).chanId c.nextChanId := by
          rw [isCounted]
          rfl
        rw [comp_update_same (Opening.chanId c.nextChanId) isHeld]
        exact registered.counted
      · have isHeld : Opening.inbox (.numbered c.nextChanId) = (c.opening thread).inbox := by
          rw [isCounted]
          rfl
        rw [comp_update_same Opening.inbox isHeld]
        exact registered.isMade
  | @pushId thread chanId isNumbered =>
      have noneHeld : ∀ t, (Opening.inbox ∘ c.opening) t = none := by
        intro t
        cases isOpening : c.opening t with
        | listed inbox => exact absurd isOpening (isOrderly t inbox)
        | _ => simp [isOpening, Opening.inbox]
      constructor
      · simp [registered.ids]
      · rw [Function.comp_update, List.map_append]
        exact registered.counted.push (by simp [isNumbered, Opening.chanId])
      · rw [Function.comp_update, List.map_append]
        exact registered.isMade.make noneHeld thread
  | @pushInbox thread inbox isListed =>
      constructor
      · exact registered.ids
      · have isHeld : Opening.chanId c.nextChanId .idle
            = (c.opening thread).chanId c.nextChanId := by
          rw [isListed]
          rfl
        rw [comp_update_same (Opening.chanId c.nextChanId) isHeld]
        exact registered.counted
      · rw [Function.comp_update]
        exact registered.isMade.push (by simp [isListed, Opening.inbox])
  | _ => exact ⟨registered.ids, registered.counted, registered.isMade⟩

/-! ## Routing -/

/-- The frame that is on its way to the channel at an index of the lists. -/
def Dispatcher.onItsWay (chanId k : Nat) : Dispatcher → List AmqpFrame091
  | .routing f i n => if f.chanId = chanId ∧ i ≤ k ∧ k < n then [f] else []
  | _ => []

/-- What has arrived for a channel has been put into its inbox, or is on its way. -/
structure Routed (c : Connection) : Prop where
  otherIds : ∀ chanId, chanId ∉ c.listed.map Prod.fst → c.arrived chanId = []
  otherInboxes : ∀ inbox, inbox ∉ c.listed.map Prod.snd → c.put inbox = []
  upTo : ∀ f i n, c.dispatcher = .routing f i n → n ≤ c.listed.length
  each : ∀ k chanId inbox, c.listed[k]? = some (chanId, inbox) →
    c.arrived chanId = c.put inbox ++ c.dispatcher.onItsWay chanId k

variable {c' : Connection} {f : AmqpFrame091} {n : Nat}

theorem Routed.start : Routed .start := by
  constructor <;> simp [Connection.start]

theorem Routed.of_same (routed : Routed c) (isListed : c'.listed = c.listed)
    (isArrived : c'.arrived = c.arrived) (isPut : c'.put = c.put)
    (noneBefore : ∀ chanId k, c.dispatcher.onItsWay chanId k = [])
    (noneAfter : ∀ f i n, c'.dispatcher ≠ .routing f i n) : Routed c' := by
  constructor
  · rw [isListed, isArrived]
    exact routed.otherIds
  · rw [isListed, isPut]
    exact routed.otherInboxes
  · intro f i n isRouting
    exact absurd isRouting (noneAfter f i n)
  · intro k chanId inbox isPair
    have noneAfter : c'.dispatcher.onItsWay chanId k = [] := by
      cases isDispatcher : c'.dispatcher with
      | routing f i n => exact absurd isDispatcher (noneAfter f i n)
      | _ => rfl
    rw [isListed] at isPair
    rw [isArrived, isPut, noneAfter, routed.each k chanId inbox isPair, noneBefore]

theorem Routed.pushId {c : Connection} (routed : Routed c) (registered : Registered c)
    {thread chanId : Nat} (isNumbered : c.opening thread = .numbered chanId) :
    Routed { c with
      channelIds := c.channelIds ++ [chanId]
      created := c.created + 1
      opening := update c.opening thread (.listed c.created)
      listed := c.listed ++ [(chanId, c.created)] } := by
  constructor
  · intro chanId' notListed
    rw [List.map_append, List.mem_append, not_or] at notListed
    exact routed.otherIds chanId' notListed.1
  · intro inbox notListed
    rw [List.map_append, List.mem_append, not_or] at notListed
    exact routed.otherInboxes inbox notListed.1
  · intro f i n isRouting
    rw [List.length_append]
    exact Nat.le_add_right_of_le (routed.upTo f i n isRouting)
  · intro k chanId' inbox isPair
    rw [List.getElem?_append] at isPair
    split at isPair
    · exact routed.each k chanId' inbox isPair
    · rename_i isLast
      -- the new channel is not among those that a frame is being compared with
      have isPast : c.dispatcher.onItsWay chanId' k = [] := by
        cases isDispatcher : c.dispatcher with
        | routing f i n =>
            have := routed.upTo f i n isDispatcher
            rw [Dispatcher.onItsWay, if_neg]
            omega
        | _ => rfl
      have isNew : chanId = chanId' ∧ c.created = inbox := by
        rw [List.getElem?_singleton] at isPair
        split at isPair
        · simpa using isPair
        · contradiction
      obtain ⟨rfl, rfl⟩ := isNew
      have notListed := registered.counted.heldUnlisted thread chanId (by simp [isNumbered,
        Opening.chanId])
      have notMade : c.created ∉ c.listed.map Prod.snd := by
        intro isMem
        exact absurd (registered.isMade.below _ isMem) (Nat.lt_irrefl _)
      rw [routed.otherIds chanId notListed, routed.otherInboxes _ notMade, isPast]
      rfl

theorem Routed.readChannel {c : Connection} (routed : Routed c) (registered : Registered c)
    {f : AmqpFrame091} (isReading : c.dispatcher = .reading) :
    Routed { c with
      dispatcher := .routing f 0 c.channelIds.length
      arrived :=
        if f.chanId ∈ c.channelIds then update c.arrived f.chanId (c.arrived f.chanId ++ [f])
        else c.arrived } := by
  have isLength : c.channelIds.length = c.listed.length := by
    rw [registered.ids, List.length_map]
  have noOther : ∀ chanId, chanId ≠ f.chanId →
      (if f.chanId ∈ c.channelIds then update c.arrived f.chanId (c.arrived f.chanId ++ [f])
        else c.arrived) chanId = c.arrived chanId := by
    intro chanId isOther
    split
    · rw [Function.update_of_ne isOther]
    · rfl
  constructor
  · intro chanId notListed
    by_cases isChannel : chanId = f.chanId
    · subst isChannel
      rw [← registered.ids] at notListed
      rw [if_neg notListed]
      rw [registered.ids] at notListed
      exact routed.otherIds _ notListed
    · exact (noOther chanId isChannel).trans (routed.otherIds chanId notListed)
  · exact routed.otherInboxes
  · rintro _ _ _ ⟨⟩
    exact Nat.le_of_eq isLength
  · intro k chanId inbox isPair
    have isEach := routed.each k chanId inbox isPair
    obtain ⟨isIn, isAt⟩ := List.getElem?_eq_some_iff.mp isPair
    rw [isReading] at isEach
    dsimp only
    by_cases isChannel : chanId = f.chanId
    · subst isChannel
      have isMem : f.chanId ∈ c.channelIds := by
        rw [registered.ids, List.mem_map]
        exact ⟨_, List.mem_of_getElem? isPair, rfl⟩
      rw [if_pos isMem, Function.update_self, isEach]
      simp [Dispatcher.onItsWay, isLength, isIn]
    · rw [noOther chanId isChannel, isEach]
      simp [Dispatcher.onItsWay, Ne.symm isChannel]

theorem Routed.routeTo (routed : Routed c) (registered : Registered c) {inbox : Nat}
    (isRouting : c.dispatcher = .routing f i n) (isBelow : i < n)
    (isId : c.channelIds[i]? = some f.chanId) (isInbox : c.channelInboxes[i]? = some inbox) :
    Routed { c with
      inboxes := update c.inboxes inbox (c.inboxes inbox ++ [f])
      put := update c.put inbox (c.put inbox ++ [f])
      dispatcher := .routing f (i + 1) n } := by
  have isPair := registered.listed_of_getElem? isId isInbox
  constructor
  · exact routed.otherIds
  · intro inbox' notListed
    dsimp only
    rw [Function.update_of_ne]
    · exact routed.otherInboxes inbox' notListed
    · rintro rfl
      exact notListed (List.mem_map.mpr ⟨_, List.mem_of_getElem? isPair, rfl⟩)
  · rintro _ _ _ ⟨⟩
    exact routed.upTo f i n isRouting
  · intro k chanId inbox' isPair'
    have isEach := routed.each k chanId inbox' isPair'
    rw [isRouting] at isEach
    dsimp only
    by_cases isHere : k = i
    · subst isHere
      rw [isPair] at isPair'
      cases isPair'
      rw [Function.update_self, isEach]
      simp [Dispatcher.onItsWay, isBelow]
    · -- no other channel has this inbox
      have isOther : inbox' ≠ inbox := by
        rintro rfl
        apply isHere
        have isAt : (c.listed.map Prod.snd)[k]? = (c.listed.map Prod.snd)[i]? := by
          rw [List.getElem?_map, List.getElem?_map, isPair, isPair']
          rfl
        have isIn : k < (c.listed.map Prod.snd).length := by
          rw [List.length_map]
          exact (List.getElem?_eq_some_iff.mp isPair').1
        exact (List.getElem?_inj isIn registered.isMade.distinct).mp isAt
      rw [Function.update_of_ne isOther, isEach]
      simp only [Dispatcher.onItsWay]
      congr 2
      apply propext
      omega

theorem Routed.routePast (routed : Routed c) (registered : Registered c) {chanId : Nat}
    (isRouting : c.dispatcher = .routing f i n) (isId : c.channelIds[i]? = some chanId)
    (isOther : chanId ≠ f.chanId) : Routed { c with dispatcher := .routing f (i + 1) n } := by
  constructor
  · exact routed.otherIds
  · exact routed.otherInboxes
  · rintro _ _ _ ⟨⟩
    exact routed.upTo f i n isRouting
  · intro k chanId' inbox isPair
    have isEach := routed.each k chanId' inbox isPair
    have isHere : k = i → chanId' ≠ f.chanId := by
      rintro rfl
      rw [registered.ids, List.getElem?_map, isPair] at isId
      cases isId
      exact isOther
    rw [isRouting] at isEach
    dsimp only
    rw [isEach]
    simp only [Dispatcher.onItsWay]
    congr 2
    apply propext
    constructor
    · rintro ⟨isChannel, isFrom, isTo⟩
      have notHere : k ≠ i := fun isHere' => isHere isHere' isChannel.symm
      omega
    · omega

theorem Routed.routeEnd (routed : Routed c) (isRouting : c.dispatcher = .routing f i n)
    (isPast : ¬ i < n) : Routed { c with dispatcher := .atHead } := by
  refine routed.of_same rfl rfl rfl ?_ ?_
  · intro chanId k
    rw [isRouting, Dispatcher.onItsWay, if_neg]
    omega
  · rintro _ _ _ ⟨⟩

theorem Routed.step {c c' : Connection} {action : Action} (routed : Routed c)
    (registered : Registered c) (isStep : Step c action c') : Routed c' := by
  cases isStep with
  | pushId isNumbered => exact routed.pushId registered isNumbered
  | readChannel isReading => exact routed.readChannel registered isReading
  | routeTo isRouting isBelow isId isInbox =>
      exact routed.routeTo registered isRouting isBelow isId isInbox
  | routePast isRouting _ isId isOther => exact routed.routePast registered isRouting isId isOther
  | routeEnd isRouting isPast => exact routed.routeEnd isRouting isPast
  | check isHead =>
      refine routed.of_same rfl rfl rfl ?_ ?_
      · simp [isHead, Dispatcher.onItsWay]
      · intro f i n
        dsimp only
        split <;> simp
  | readEnd isHere | wake isHere =>
      exact routed.of_same rfl rfl rfl (by simp [isHere, Dispatcher.onItsWay]) (by simp)
  | readHeartbeat isHere | readConnection isHere | startWaking isHere | wakeEnd isHere =>
      exact routed.of_same rfl rfl rfl (by simp [isHere, Dispatcher.onItsWay]) (by simp)
  | _ => exact ⟨routed.otherIds, routed.otherInboxes, routed.upTo, routed.each⟩

/-! ## The end of the connection -/

/-- The loop goes on until the frame that ends the connection is read. -/
def Dispatcher.serves : Dispatcher → Bool
  | .atHead | .reading | .routing .. => true
  | _ => false

/-- The running flag is set until the connection ends, and from then on there is a frame for each
receive that waits. -/
structure Awake (c : Connection) : Prop where
  runs : c.dispatcher.serves = true → c.dispatcherRunning = true
  upTo : ∀ f i n, c.dispatcher = .waking f i n → n ≤ c.channelInboxes.length
  provided : c.dispatcher.wakes = true → ∀ inbox, c.waiting inbox ≤ c.remaining inbox

theorem Awake.start : Awake .start := by
  constructor <;> simp [Connection.start]

theorem Awake.of_same (awake : Awake c) (isDispatcher : c'.dispatcher = c.dispatcher)
    (isRunning : c'.dispatcherRunning = c.dispatcherRunning)
    (isLater : c.channelInboxes <+: c'.channelInboxes) (isInboxes : c'.inboxes = c.inboxes)
    (isWaiting : c.dispatcher.wakes = true → ∀ inbox, c'.waiting inbox ≤ c.remaining inbox) :
    Awake c' := by
  constructor
  · rw [isDispatcher, isRunning]
    exact awake.runs
  · intro f i n isWaking
    rw [isDispatcher] at isWaking
    exact Nat.le_trans (awake.upTo f i n isWaking) isLater.length_le
  · intro wakes inbox
    rw [isDispatcher] at wakes
    have isRemaining : c'.remaining inbox = c.remaining inbox := by
      rw [Connection.remaining, Connection.remaining, isInboxes, isDispatcher]
      cases isWaking : c.dispatcher with
      | waking f i n =>
          obtain ⟨rest, isWhole⟩ := isLater
          rw [← isWhole]
          dsimp only
          rw [List.take_append_of_le_length (awake.upTo f i n isWaking)]
      | _ => rfl
    rw [isRemaining]
    exact isWaiting wakes inbox

theorem Awake.of_serving (serves : c'.dispatcher.serves = true)
    (isRunning : c'.dispatcherRunning = true) : Awake c' := by
  constructor
  · intro _
    exact isRunning
  · intro f i n isWaking
    simp [isWaking, Dispatcher.serves] at serves
  · intro wakes
    cases isDispatcher : c'.dispatcher <;> simp_all [Dispatcher.serves, Dispatcher.wakes]

theorem Awake.receive {c : Connection} (awake : Awake c) {inbox : Nat} {f : AmqpFrame091}
    {rest : List AmqpFrame091} (holds : c.inboxes inbox = f :: rest) :
    Awake { c with
      inboxes := update c.inboxes inbox rest
      waiting := update c.waiting inbox (c.waiting inbox - 1) } := by
  constructor
  · exact awake.runs
  · exact awake.upTo
  · intro wakes inbox'
    have isProvided := awake.provided wakes inbox'
    simp only [Connection.remaining] at isProvided ⊢
    by_cases isHere : inbox' = inbox
    · subst isHere
      rw [Function.update_self, Function.update_self]
      rw [holds, List.length_cons] at isProvided
      omega
    · rw [Function.update_of_ne isHere, Function.update_of_ne isHere]
      exact isProvided

theorem Awake.startWaking (isOrderly : Orderly c .startWaking) : Awake { c with
      connectionInbox := c.connectionInbox ++ [f]
      dispatcher := .waking f 0 c.channelInboxes.length } := by
  constructor
  · rintro ⟨⟩
  · rintro _ _ _ ⟨⟩
    exact Nat.le_refl _
  · intro _ inbox
    simp only [Connection.remaining, List.take_length, List.drop_zero]
    exact isOrderly inbox

theorem Awake.wake (awake : Awake c) {inbox : Nat} (isWaking : c.dispatcher = .waking f i n)
    (isBelow : i < n) (isInbox : c.channelInboxes[i]? = some inbox) : Awake { c with
      inboxes := update c.inboxes inbox (c.inboxes inbox ++ [f])
      dispatcher := .waking f (i + 1) n } := by
  have wakes : c.dispatcher.wakes = true := by
    rw [isWaking]
    rfl
  -- the inbox gets the frame that was still to come
  have isDrop : (c.channelInboxes.take n).drop i
      = inbox :: (c.channelInboxes.take n).drop (i + 1) := by
    have isAt : (c.channelInboxes.take n)[i]? = some inbox := by
      rw [List.getElem?_take_of_lt isBelow, isInbox]
    obtain ⟨isIn, isAt⟩ := List.getElem?_eq_some_iff.mp isAt
    rw [List.drop_eq_getElem_cons isIn, isAt]
  constructor
  · rintro ⟨⟩
  · rintro _ _ _ ⟨⟩
    exact awake.upTo f i n isWaking
  · intro _ inbox'
    have isProvided := awake.provided wakes inbox'
    simp only [Connection.remaining, isWaking, isDrop, List.count_cons] at isProvided ⊢
    by_cases isHere : inbox' = inbox
    · subst isHere
      rw [Function.update_self, List.length_append]
      simp at isProvided ⊢
      omega
    · rw [Function.update_of_ne isHere]
      simpa [Ne.symm isHere] using isProvided

theorem Awake.wakeEnd (awake : Awake c) (isWaking : c.dispatcher = .waking f i n) (isPast : ¬ i < n) :
    Awake { c with dispatcher := .ended } := by
  have wakes : c.dispatcher.wakes = true := by
    rw [isWaking]
    rfl
  constructor
  · rintro ⟨⟩
  · rintro _ _ _ ⟨⟩
  · intro _ inbox
    have isProvided := awake.provided wakes inbox
    have isDone : (c.channelInboxes.take n).drop i = [] := by
      rw [List.drop_eq_nil_iff, List.length_take]
      omega
    simpa [Connection.remaining, isWaking, isDone] using isProvided

theorem Awake.step {c c' : Connection} {action : Action} (awake : Awake c)
    (isStep : Step c action c') (isOrderly : Orderly c action) : Awake c' := by
  cases isStep with
  | @wait inbox isMade =>
      refine awake.of_same rfl rfl List.prefix_rfl rfl ?_
      intro wakes inbox'
      have isProvided := awake.provided wakes inbox'
      have isLeft := isOrderly wakes
      dsimp only
      rw [Function.update_apply]
      split
      · rename_i isHere
        rw [isHere]
        exact isLeft
      · exact isProvided
  | receive _ holds => exact awake.receive holds
  | pushInbox _ =>
      exact awake.of_same rfl rfl (List.prefix_append _ _) rfl awake.provided
  | startWaking _ => exact Awake.startWaking isOrderly
  | wake isWaking isBelow isInbox => exact awake.wake isWaking isBelow isInbox
  | wakeEnd isWaking isPast => exact awake.wakeEnd isWaking isPast
  | check isHead =>
      have isRunning := awake.runs (by simp [isHead, Dispatcher.serves])
      exact Awake.of_serving (by simp [isRunning, Dispatcher.serves]) isRunning
  | readHeartbeat isReading | readConnection isReading | readChannel isReading =>
      exact Awake.of_serving rfl (awake.runs (by simp [isReading, Dispatcher.serves]))
  | routeTo isRouting | routePast isRouting | routeEnd isRouting =>
      exact Awake.of_serving rfl (awake.runs (by simp [isRouting, Dispatcher.serves]))
  | readEnd _ =>
      constructor
      · rintro ⟨⟩
      · rintro _ _ _ ⟨⟩
      · rintro ⟨⟩
  | _ => exact awake.of_same rfl rfl List.prefix_rfl rfl awake.provided

/-! ## Runs -/

/-- What holds in every state of an orderly run. -/
structure Sound (c : Connection) : Prop where
  registered : Registered c
  routed : Routed c
  awake : Awake c

theorem Sound.start : Sound .start :=
  ⟨Registered.start, Routed.start, Awake.start⟩

theorem Sound.step {c c' : Connection} {action : Action} (sound : Sound c)
    (isStep : Step c action c') (isOrderly : Orderly c action) : Sound c' :=
  ⟨sound.registered.step isStep isOrderly, sound.routed.step sound.registered isStep,
    sound.awake.step isStep isOrderly⟩

theorem Sound.routedExactly (sound : Sound c) : RoutedExactly c := by
  constructor
  · exact sound.registered.counted.distinct
  · exact sound.registered.isMade.distinct
  · exact sound.routed.otherInboxes
  · intro chanId inbox isMem
    obtain ⟨k, isPair⟩ := List.getElem?_of_mem isMem
    have isEach := sound.routed.each k chanId inbox isPair
    cases isDispatcher : c.dispatcher with
    | routing f i n =>
        rw [isDispatcher, Dispatcher.onItsWay] at isEach
        split at isEach
        · rename_i isOnItsWay
          exact Or.inr ⟨f, i, n, rfl, isOnItsWay.1, isEach⟩
        · rw [List.append_nil] at isEach
          exact Or.inl isEach
    | _ =>
        rw [isDispatcher, Dispatcher.onItsWay, List.append_nil] at isEach
        · exact Or.inl isEach
        · rintro _ _ _ ⟨⟩

theorem Sound.not_stranded (sound : Sound c) : ¬ Stranded c := by
  rintro ⟨wakes, inbox, waits, noneLeft⟩
  have isProvided := sound.awake.provided wakes inbox
  omega

/-- The frame that `Amqp091::readFrame` returns at the end of the connection. -/
def connectionEnd : AmqpFrame091 := ⟨-1, 0, []⟩

theorem OrderlyRun.step {c c' : Connection} {action : Action} (reached : OrderlyRun c)
    (isStep : Step c action c') (isOrderly : Orderly c action) : OrderlyRun c' :=
  Reached.step reached ⟨isStep, isOrderly⟩

end Tinox.Amqp.Dispatch
