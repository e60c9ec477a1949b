import Mathlib.Logic.Function.Basic
import Tinox.Amqp.RoundTrip10
import Tinox.Data.Runs

/-!
# The links of a session

All links of an AMQP 1.0 session read the frames of one connection; each keeps its own credit and
counts its own deliveries.
-/

namespace Tinox.Amqp.Links

open Tinox.Runtime Runs Amqp10Writer Amqp10Reader

open Function (update)

/-- `Amqp10Performative`. -/
structure Amqp10Performative where
  descriptor : Int64
  fields : List Amqp10Value

/-- `Amqp10::encodePerformative`. -/
def encodePerformative (descriptorCode : Int64) (fields : List Amqp10Value) : List Int64 :=
  writeValue (.describedVal descriptorCode (.listVal fields))

/-- `Amqp10::decodePerformative`; `none` when the nesting is deeper than the fuel. -/
def decodePerformative (fuel : Nat) (body : List Int64) : Option Amqp10Performative :=
  (readValue fuel ⟨body, 0, false⟩).map fun v =>
    match v.1 with
    | .describedVal descriptor (.listVal fields) => ⟨descriptor, fields⟩
    | _ => ⟨-1, []⟩

/-- A body is decoded with enough fuel. -/
def Decodes (body : List Int64) (p : Amqp10Performative) : Prop :=
  ∃ enough, ∀ fuel ≥ enough, decodePerformative fuel body = some p

/-- `Amqp10::encodeMessageBody`. -/
def encodeMessageBody (body : List Int64) (contentType : CString) : List Int64 :=
  writeValue (.describedVal 0x73 (.listVal [.nullVal, .nullVal, .nullVal, .nullVal, .nullVal,
    .nullVal, .symbolVal contentType])) ++
  writeValue (.describedVal 0x75 (.binaryVal body))

/-- `Amqp10::deliveryTagBytes`. -/
def deliveryTagBytes (n : Int64) : List Int64 :=
  fourBytes n

/-- A field that is an unsigned integer. -/
def uIntAt (fields : List Amqp10Value) (i : Nat) : Option Int :=
  match (fields[i]? : Option Amqp10Value) with
  | some (.uIntVal n) => some n.toInt
  | _ => none

/-! ## Links -/

/-- `Amqp10Frame`. -/
structure Amqp10Frame where
  frameType : Int64
  chanId : Int64
  body : List Int64

/-- `Amqp10Session`. -/
structure Amqp10Session where
  chanId : Int64
  maxFrameSize : Int
  nextLinkHandle : Nat

/-- `Amqp10Link`. -/
structure Amqp10Link where
  handle : Nat
  linkCredit : Int
  deliveryCount : Nat
  errorMessage : CString

/-- `Amqp10Link::awaitFlow`, on the frame that `readFrame` returned and the performative that is
decoded from its body. -/
def awaitFlow (session : Amqp10Session) (f : Amqp10Frame) (p : Amqp10Performative)
    (link : Amqp10Link) : Amqp10Link :=
  if f.frameType ≠ 0 then
    { link with
      errorMessage :=
        literal "expected AMQP frame (type=0) while waiting for flow, got frameType=" ++
          printInteger f.frameType }
  else if f.chanId ≠ session.chanId then
    { link with
      errorMessage :=
        literal "flow received on the wrong channel " ++ printInteger f.chanId ++
          literal " (expected: " ++ printInteger session.chanId ++ literal ") " ++
          [0xE2, 0x80, 0x94] ++ literal " no frame dispatcher in v1, see issue 76" }
  else if p.descriptor ≠ 0x13 then
    { link with
      errorMessage :=
        literal "expected flow (0x13), got descriptor=" ++ printInteger p.descriptor }
  else
    match uIntAt p.fields 6 with
    | some n => { link with linkCredit := n }
    | none => link

/-- The arguments of `Amqp10Link::publishCore`. -/
structure Publication where
  body : List Int64
  contentType : CString
  txnState : Amqp10Value

/-- `Amqp10Link::publish`. -/
def publish (body : List Int64) (contentType : CString) : Publication :=
  ⟨body, contentType, .nullVal⟩

/-- `Amqp10Link::publishTransactional`. -/
def publishTransactional (body : List Int64) (contentType : CString) (txnId : List Int64) :
    Publication :=
  ⟨body, contentType, .describedVal 0x34 (.listVal [.binaryVal txnId, .nullVal])⟩

/-- Where a thread is: in `readFrame`, called by `awaitFlow` or by `publishCore`, or in the loop
of `publishCore` that sends the parts of a message. -/
inductive Call where
  | idle
  | awaiting (handle : Nat) (publication : Option Publication)
  | sending (handle : Nat) (msgBytes deliveryTag : List Int64) (txnState : Amqp10Value)
      (offset : Nat) (isFirst : Bool)

/-- The beginning of the loop of `publishCore`. -/
def startSending (publication : Publication) (link : Amqp10Link) : Call :=
  .sending link.handle (encodeMessageBody publication.body publication.contentType)
    (deliveryTagBytes (Int64.ofNat link.deliveryCount)) publication.txnState 0 true

/-- What `publishCore` does behind `awaitFlow`. -/
def afterFlow (publication : Publication) (link : Amqp10Link) : Amqp10Link × Call :=
  if link.errorMessage ≠ [] then (link, .idle)
  else if link.linkCredit ≤ 0 then
    ({ link with errorMessage := literal "no link credit received despite a flow frame" }, .idle)
  else (link, startSending publication link)

/-- `maxBodyPerFrame`. -/
def maxBodyPerFrame (session : Amqp10Session) : Nat :=
  if session.maxFrameSize - 64 < 1 then 1 else (session.maxFrameSize - 64).toNat

/-- A transfer frame that has been sent. -/
structure Transfer where
  handle : Nat
  isFirst : Bool
  fields : List Amqp10Value
  chunk : List Int64
  /-- What the latest flow for the handle allowed. -/
  allowed : Option Int

/-- The frame that `writeFrame` gets. -/
def Transfer.frame (session : Amqp10Session) (transfer : Transfer) : Amqp10Frame :=
  ⟨0, session.chanId, encodePerformative 0x14 transfer.fields ++ transfer.chunk⟩

/-- The delivery-id on the wire. -/
def Transfer.deliveryId (transfer : Transfer) : Option Int :=
  (uIntAt transfer.fields 1).map fun n => n % 2 ^ 32

/-- `transferFields`. -/
def transferFields (link : Amqp10Link) (deliveryTag : List Int64) (txnState : Amqp10Value)
    (more : Bool) : List Amqp10Value :=
  [.uIntVal (Int64.ofNat link.handle), .uIntVal (Int64.ofNat link.deliveryCount),
    .binaryVal deliveryTag, .uIntVal 0, .boolVal true, .boolVal more, .uByteVal 0, txnState]

/-- The credit that `awaitFlow` takes from a frame. -/
def creditOf (session : Amqp10Session) (f : Amqp10Frame) (p : Amqp10Performative) : Option Int :=
  if f.frameType = 0 ∧ f.chanId = session.chanId ∧ p.descriptor = 0x13 then uIntAt p.fields 6
  else none

/-- The handle that a flow carries. -/
def Amqp10Performative.handle (p : Amqp10Performative) : Option Int :=
  uIntAt p.fields 4

/-- The delivery-count that a flow carries; without one nothing has been delivered. -/
def Amqp10Performative.deliveryCount (p : Amqp10Performative) : Int :=
  (uIntAt p.fields 5).getD 0

theorem linkCredit_awaitFlow (session : Amqp10Session) (f : Amqp10Frame) (p : Amqp10Performative)
    (link : Amqp10Link) :
    (awaitFlow session f p link).linkCredit = (creditOf session f p).getD link.linkCredit := by
  unfold awaitFlow creditOf
  split
  · simp_all
  · split
    · simp_all
    · split
      · simp_all
      · rename_i isAmqp isChannel isFlow
        rw [not_not] at isAmqp isChannel isFlow
        rw [if_pos ⟨isAmqp, isChannel, isFlow⟩]
        cases uIntAt p.fields 6 <;> rfl

theorem handle_awaitFlow (session : Amqp10Session) (f : Amqp10Frame) (p : Amqp10Performative)
    (link : Amqp10Link) : (awaitFlow session f p link).handle = link.handle := by
  unfold awaitFlow
  repeat' split
  all_goals rfl

theorem deliveryCount_awaitFlow (session : Amqp10Session) (f : Amqp10Frame)
    (p : Amqp10Performative) (link : Amqp10Link) :
    (awaitFlow session f p link).deliveryCount = link.deliveryCount := by
  unfold awaitFlow
  repeat' split
  all_goals rfl

/-! ## Steps -/

/-- A session with its links by their handles, the frames that the broker has sent and nobody has
read, and the threads that call the links. -/
structure State where
  session : Amqp10Session
  links : Nat → Option Amqp10Link
  incoming : List Amqp10Frame
  calls : Nat → Call
  /-- The transfers that have been sent, and for each handle delivery-count and link-credit of the
  latest flow that has been read, together. -/
  sent : List Transfer
  latest : Int → Option Int

/-- The session that `Amqp10Session::begin` returns. -/
def State.start (chanId : Int64) (maxFrameSize : Int) : State where
  session := ⟨chanId, maxFrameSize, 0⟩
  links := fun _ => none
  incoming := []
  calls := fun _ => .idle
  sent := []
  latest := fun _ => none

/-- A frame has been read. -/
def State.read (c : State) (f : Amqp10Frame) (p : Amqp10Performative) (rest : List Amqp10Frame) :
    State :=
  { c with
    incoming := rest
    latest :=
      match creditOf c.session f p, p.handle with
      | some credit, some handle => update c.latest handle (some (p.deliveryCount + credit))
      | _, _ => c.latest }

inductive Action where
  | arrive (f : Amqp10Frame)
  | attach (f : Amqp10Frame) (p : Amqp10Performative)
  | awaitFlow (thread handle : Nat)
  | publish (thread handle : Nat) (publication : Publication)
  | read (thread : Nat) (f : Amqp10Frame) (p : Amqp10Performative)
  | send (thread : Nat)
  | finish (thread : Nat)

/-- What the broker and the threads do. -/
inductive Step (c : State) : Action → State → Prop where
  | arrive {f : Amqp10Frame} : Step c (.arrive f) { c with incoming := c.incoming ++ [f] }
  /-- `attachCore` when the broker's answer is an attach. -/
  | attach {f : Amqp10Frame} {p : Amqp10Performative} {rest : List Amqp10Frame} :
      c.incoming = f :: rest → Decodes f.body p → f.frameType = 0 → p.descriptor = 0x12 →
      Step c (.attach f p)
        { c.read f p rest with
          session := { c.session with nextLinkHandle := c.session.nextLinkHandle + 1 }
          links := update c.links c.session.nextLinkHandle
            (some ⟨c.session.nextLinkHandle, 0, 0, []⟩) }
  /-- `attachCore` otherwise; there is no link. -/
  | attachFailed {f : Amqp10Frame} {p : Amqp10Performative} {rest : List Amqp10Frame} :
      c.incoming = f :: rest → Decodes f.body p → ¬ (f.frameType = 0 ∧ p.descriptor = 0x12) →
      Step c (.attach f p)
        { c.read f p rest with
          session := { c.session with nextLinkHandle := c.session.nextLinkHandle + 1 } }
  | awaitFlow {thread handle : Nat} {link : Amqp10Link} : c.calls thread = .idle →
      c.links handle = some link → Step c (.awaitFlow thread handle)
        { c with calls := update c.calls thread (.awaiting handle none) }
  | publishWaits {thread handle : Nat} {publication : Publication} {link : Amqp10Link} :
      c.calls thread = .idle → c.links handle = some link → link.linkCredit ≤ 0 →
      Step c (.publish thread handle publication)
        { c with calls := update c.calls thread (.awaiting handle (some publication)) }
  | publishSends {thread handle : Nat} {publication : Publication} {link : Amqp10Link} :
      c.calls thread = .idle → c.links handle = some link → ¬ link.linkCredit ≤ 0 →
      Step c (.publish thread handle publication)
        { c with calls := update c.calls thread (startSending publication link) }
  | flowRead {thread handle : Nat} {link : Amqp10Link} {f : Amqp10Frame} {p : Amqp10Performative}
      {rest : List Amqp10Frame} : c.calls thread = .awaiting handle none →
      c.links handle = some link → c.incoming = f :: rest → Decodes f.body p →
      Step c (.read thread f p)
        { c.read f p rest with
          links := update c.links handle (some (Links.awaitFlow c.session f p link))
          calls := update c.calls thread .idle }
  | publishRead {thread handle : Nat} {publication : Publication} {link : Amqp10Link}
      {f : Amqp10Frame} {p : Amqp10Performative} {rest : List Amqp10Frame} :
      c.calls thread = .awaiting handle (some publication) → c.links handle = some link →
      c.incoming = f :: rest → Decodes f.body p → Step c (.read thread f p)
        { c.read f p rest with
          links := update c.links handle
            (some (afterFlow publication (Links.awaitFlow c.session f p link)).1)
          calls := update c.calls thread
            (afterFlow publication (Links.awaitFlow c.session f p link)).2 }
  /-- One round of the loop of `publishCore`. -/
  | send {thread handle offset : Nat} {msgBytes deliveryTag : List Int64} {txnState : Amqp10Value}
      {isFirst : Bool} {link : Amqp10Link} :
      c.calls thread = .sending handle msgBytes deliveryTag txnState offset isFirst →
      offset < msgBytes.length ∨ isFirst = true → c.links handle = some link →
      Step c (.send thread)
        { c with
          sent := c.sent ++ [{
            handle := handle
            isFirst := isFirst
            fields := transferFields link deliveryTag txnState
              (offset + min (msgBytes.length - offset) (maxBodyPerFrame c.session) <
                msgBytes.length)
            chunk := (msgBytes.drop offset).take (maxBodyPerFrame c.session)
            allowed := c.latest handle }]
          calls := update c.calls thread (.sending handle msgBytes deliveryTag txnState
            (offset + min (msgBytes.length - offset) (maxBodyPerFrame c.session)) false) }
  /-- The last two statements of `publishCore`. -/
  | finish {thread handle offset : Nat} {msgBytes deliveryTag : List Int64}
      {txnState : Amqp10Value} {isFirst : Bool} {link : Amqp10Link} :
      c.calls thread = .sending handle msgBytes deliveryTag txnState offset isFirst →
      ¬ (offset < msgBytes.length ∨ isFirst = true) → c.links handle = some link →
      Step c (.finish thread)
        { c with
          links := update c.links handle (some { link with
            linkCredit := link.linkCredit - 1
            deliveryCount := link.deliveryCount + 1 })
          calls := update c.calls thread .idle }

/-- The number of deliveries that have been begun on a link. -/
def begun (handle : Nat) (sent : List Transfer) : Nat :=
  sent.countP fun transfer => transfer.isFirst && transfer.handle == handle

/-- Each delivery was allowed by the latest flow for its link when it was begun. -/
def CreditRespected (c : State) : Prop :=
  ∀ before transfer after, c.sent = before ++ transfer :: after → transfer.isFirst = true →
    ∃ total, transfer.allowed = some total ∧ (begun transfer.handle before : Int) < total

/-- All deliveries have their own ids. -/
def DistinctIds (c : State) : Prop :=
  ((c.sent.filter Transfer.isFirst).map Transfer.deliveryId).Nodup

/-- A flow for a handle leaves the credit of other links as it is. -/
def OthersKeepCredit (c : State) (action : Action) (c' : State) : Prop :=
  ∀ thread f p flowHandle, action = .read thread f p → creditOf c.session f p ≠ none →
    p.handle = some flowHandle → ∀ handle : Nat, (handle : Int) ≠ flowHandle →
      (c'.links handle).map Amqp10Link.linkCredit = (c.links handle).map Amqp10Link.linkCredit

/-- A call on a link. -/
def Call.isOn (handle : Nat) : Call → Prop
  | .awaiting h _ | .sending h .. => h = handle
  | .idle => False

/-- A call of `publishCore` on a link. -/
def Call.publishes (handle : Nat) : Call → Prop
  | .awaiting h (some _) | .sending h .. => h = handle
  | _ => False

/-- Nobody publishes on a link while another call on it runs.  Every flow is read by the link whose
handle it carries, and counts all deliveries of that link unless it gives no credit; no other link
has sent more deliveries than one that begins one, and that link less than 2 ^ 32. -/
def Orderly (c : State) : Action → Prop
  | .attach f p => creditOf c.session f p = none
  | .awaitFlow _ handle => ∀ thread, ¬ (c.calls thread).publishes handle
  | .publish _ handle _ => ∀ thread, ¬ (c.calls thread).isOn handle
  | .read thread f p => ∀ handle publication link credit,
      c.calls thread = .awaiting handle publication → c.links handle = some link →
      creditOf c.session f p = some credit →
        p.handle = some (handle : Int) ∧ (credit ≠ 0 → link.deliveryCount ≤ p.deliveryCount)
  | .send thread => ∀ handle msgBytes deliveryTag txnState offset link,
      c.calls thread = .sending handle msgBytes deliveryTag txnState offset true →
      c.links handle = some link → link.deliveryCount < 2 ^ 32 ∧
        ∀ other, other ≠ handle → begun other c.sent ≤ link.deliveryCount
  | _ => True

abbrev Run : State → Prop :=
  Reached (fun c => ∃ chanId maxFrameSize, c = .start chanId maxFrameSize) Step

abbrev OrderlyRun : State → Prop :=
  Reached (fun c => ∃ chanId maxFrameSize, c = .start chanId maxFrameSize)
    fun c action c' => Step c action c' ∧ Orderly c action

/-- A call that has sent a part of a message. -/
def Call.isMidway (handle : Nat) : Call → Prop
  | .sending h _ _ _ _ false => h = handle
  | _ => False

/-- A call that sends a message. -/
def Call.isSending (handle : Nat) : Call → Prop
  | .sending h .. => h = handle
  | _ => False

variable {call : Call} {handle : Nat}

theorem Call.publishes_of_isSending (isSending : call.isSending handle) :
    call.publishes handle := by
  cases call with
  | sending => exact isSending
  | _ => exact isSending.elim

theorem Call.isSending_of_isMidway (isMidway : call.isMidway handle) : call.isSending handle := by
  cases call with
  | sending _ _ _ _ _ isFirst =>
      cases isFirst with
      | false => exact isMidway
      | true => exact isMidway.elim
  | _ => exact isMidway.elim

theorem Call.isOn_of_publishes (publishes : call.publishes handle) : call.isOn handle := by
  cases call with
  | idle => exact publishes.elim
  | awaiting _ publication =>
      cases publication with
      | none => exact publishes.elim
      | some _ => exact publishes
  | sending => exact publishes

theorem Call.isMidway_update {calls : Nat → Call} {thread : Nat}
    (isMidway : ∀ h, call.isMidway h ↔ (calls thread).isMidway h) :
    ∀ t h, (update calls thread call t).isMidway h ↔ (calls t).isMidway h := by
  intro t h
  rw [Function.update_apply]
  split
  · rename_i isThread
    rw [isThread]
    exact isMidway h
  · exact Iff.rfl

theorem forall_update {α β : Type} [DecidableEq α] {table : α → Option β} {holds : α → β → Prop}
    {key : α} {value : β} (new : holds key value)
    (others : ∀ k ≠ key, ∀ v, table k = some v → holds k v) :
    ∀ k v, update table key (some value) k = some v → holds k v := by
  intro k v
  rw [Function.update_apply]
  split
  · rename_i isKey
    rintro ⟨⟩
    rw [isKey]
    exact new
  · rename_i isOther
    exact others k isOther v

/-- Whoever publishes on a link is the only one whose call is on it. -/
structure Alone (next : Nat) (calls : Nat → Call) : Prop where
  below : ∀ thread handle, (calls thread).isOn handle → handle < next
  single : ∀ thread thread' handle, (calls thread).publishes handle →
    (calls thread').isOn handle → thread = thread'

variable {next : Nat} {calls : Nat → Call} {thread : Nat}

theorem Alone.goesOn (alone : Alone next calls)
    (isOn : ∀ handle, call.isOn handle → (calls thread).isOn handle)
    (publishes : ∀ handle, call.publishes handle → (calls thread).publishes handle) :
    Alone next (update calls thread call) := by
  have before : ∀ t handle, ((update calls thread call t).isOn handle → (calls t).isOn handle) ∧
      ((update calls thread call t).publishes handle → (calls t).publishes handle) := by
    intro t handle
    rw [Function.update_apply]
    split
    · rename_i isThread
      rw [isThread]
      exact ⟨isOn handle, publishes handle⟩
    · exact ⟨id, id⟩
  constructor
  · intro t handle isOn
    exact alone.below t handle ((before t handle).1 isOn)
  · intro t t' handle publishes isOn
    exact alone.single t t' handle ((before t handle).2 publishes) ((before t' handle).1 isOn)

/-- A call that begins on a link on which nobody publishes; if it does, nobody was on the link. -/
theorem Alone.begins (alone : Alone next calls) (isBelow : handle < next)
    (isOn : ∀ h, call.isOn h → h = handle) (nonePublishes : ∀ t, ¬ (calls t).publishes handle)
    (noneOn : ∀ h, call.publishes h → ∀ t, ¬ (calls t).isOn handle) :
    Alone next (update calls thread call) := by
  constructor
  · intro t h
    rw [Function.update_apply]
    split
    · intro isOn'
      rw [isOn h isOn']
      exact isBelow
    · exact alone.below t h
  · intro t t' h
    rw [Function.update_apply, Function.update_apply]
    split <;> split
    · simp_all
    · intro publishes isOn'
      rw [isOn h (Call.isOn_of_publishes publishes)] at isOn'
      exact absurd isOn' (noneOn h publishes t')
    · intro publishes isOn'
      rw [isOn h isOn'] at publishes
      exact absurd publishes (nonePublishes t)
    · exact alone.single t t' h

/-! ## Deliveries -/

variable {transfer : Transfer} {link' : Amqp10Link}

theorem begun_concat (handle : Nat) (sent : List Transfer) (transfer : Transfer) :
    begun handle (sent ++ [transfer]) = begun handle sent +
      if transfer.isFirst = true ∧ transfer.handle = handle then 1 else 0 := by
  simp [begun, List.countP_append, List.countP_singleton]

theorem begun_eq_zero {sent : List Transfer} (noneOf : ∀ transfer ∈ sent, transfer.handle ≠ handle) :
    begun handle sent = 0 := by
  rw [begun, List.countP_eq_zero]
  intro transfer isMem
  simp [noneOf transfer isMem]

/-- The links count their deliveries, and number them by these counts. -/
structure Counted (next : Nat) (links : Nat → Option Amqp10Link) (calls : Nat → Call)
    (sent : List Transfer) : Prop where
  below : ∀ transfer ∈ sent, transfer.handle < next
  whole : ∀ handle link, links handle = some link → (∀ t, ¬ (calls t).isMidway handle) →
    begun handle sent = link.deliveryCount
  half : ∀ handle link t, links handle = some link → (calls t).isMidway handle →
    begun handle sent = link.deliveryCount + 1
  ids : ∀ transfer ∈ sent, transfer.isFirst = true →
    ∃ k < begun transfer.handle sent, transfer.deliveryId = some (k : Int)
  distinct : ((sent.filter Transfer.isFirst).map Transfer.deliveryId).Nodup

variable {links links' : Nat → Option Amqp10Link} {calls' : Nat → Call} {sent : List Transfer}
  {link : Amqp10Link} {handle : Nat}

theorem Counted.of_same (counted : Counted next links calls sent)
    (isMidway : ∀ t h, (calls' t).isMidway h ↔ (calls t).isMidway h)
    (counts : ∀ h link', links' h = some link' →
      ∃ link, links h = some link ∧ link.deliveryCount = link'.deliveryCount) :
    Counted next links' calls' sent := by
  constructor
  · exact counted.below
  · intro h link' isLink noneMidway
    obtain ⟨link, isLink, isCount⟩ := counts h link' isLink
    rw [← isCount]
    apply counted.whole h link isLink
    intro t
    rw [← isMidway]
    exact noneMidway t
  · intro h link' t isLink midway
    obtain ⟨link, isLink, isCount⟩ := counts h link' isLink
    rw [← isCount]
    exact counted.half h link t isLink ((isMidway t h).mp midway)
  · exact counted.ids
  · exact counted.distinct

theorem Counted.attach (counted : Counted next links calls sent) (alone : Alone next calls) :
    Counted (next + 1) (update links next (some ⟨next, 0, 0, []⟩)) calls sent := by
  have noneMidway : ∀ t, ¬ (calls t).isMidway next := by
    intro t midway
    have isOn := Call.isOn_of_publishes
      (Call.publishes_of_isSending (Call.isSending_of_isMidway midway))
    exact absurd (alone.below t next isOn) (Nat.lt_irrefl _)
  constructor
  · intro transfer isMem
    exact Nat.lt_succ_of_lt (counted.below transfer isMem)
  · refine forall_update (fun _ => begun_eq_zero ?_) fun h _ => counted.whole h
    exact fun transfer isMem => Nat.ne_of_lt (counted.below transfer isMem)
  · intro h link t
    rw [Function.update_apply]
    split
    · rename_i isNew
      rw [isNew]
      intro _ midway
      exact absurd midway (noneMidway t)
    · exact counted.half h link t
  · exact counted.ids
  · exact counted.distinct

theorem Counted.more (counted : Counted next links calls sent) (isBelow : transfer.handle < next)
    (notFirst : transfer.isFirst = false)
    (isMidway : ∀ h, call.isMidway h ↔ (calls thread).isMidway h) :
    Counted next links (update calls thread call) (sent ++ [transfer]) := by
  have isSame : ∀ h, begun h (sent ++ [transfer]) = begun h sent := by
    intro h
    rw [begun_concat, notFirst, if_neg (by simp), Nat.add_zero]
  have isMidway' := Call.isMidway_update isMidway
  constructor
  · intro transfer' isMem
    rw [List.mem_append, List.mem_singleton] at isMem
    obtain isMem | rfl := isMem
    · exact counted.below transfer' isMem
    · exact isBelow
  · intro h link isLink noneMidway
    rw [isSame]
    apply counted.whole h link isLink
    intro t
    rw [← isMidway']
    exact noneMidway t
  · intro h link t isLink midway
    rw [isSame]
    exact counted.half h link t isLink ((isMidway' t h).mp midway)
  · intro transfer' isMem isFirst
    rw [List.mem_append, List.mem_singleton] at isMem
    obtain isMem | rfl := isMem
    · rw [isSame]
      exact counted.ids transfer' isMem isFirst
    · simp [notFirst] at isFirst
  · rw [List.filter_append, List.filter_cons_of_neg (by simp [notFirst]), List.filter_nil,
      List.append_nil]
    exact counted.distinct

theorem Counted.first (counted : Counted next links calls sent)
    (isLink : links transfer.handle = some link) (isBelow : transfer.handle < next)
    (isFirst : transfer.isFirst = true)
    (isId : transfer.deliveryId = some (link.deliveryCount : Int))
    (isMidway : ∀ h, call.isMidway h ↔ transfer.handle = h)
    (wasNot : ∀ h, ¬ (calls thread).isMidway h)
    (noneMidway : ∀ t, ¬ (calls t).isMidway transfer.handle)
    (isMost : ∀ other, other ≠ transfer.handle → begun other sent ≤ link.deliveryCount) :
    Counted next links (update calls thread call) (sent ++ [transfer]) := by
  have isCount := counted.whole transfer.handle link isLink noneMidway
  have isNext : begun transfer.handle (sent ++ [transfer]) = link.deliveryCount + 1 := by
    rw [begun_concat, if_pos ⟨isFirst, rfl⟩, isCount]
  have isSame : ∀ h, h ≠ transfer.handle → begun h (sent ++ [transfer]) = begun h sent := by
    intro h isOther
    rw [begun_concat, if_neg (fun isHere => isOther isHere.2.symm), Nat.add_zero]
  have isUpTo : ∀ h, begun h sent ≤ link.deliveryCount := by
    intro h
    by_cases isHere : h = transfer.handle
    · rw [isHere, isCount]
    · exact isMost h isHere
  constructor
  · intro transfer' isMem
    rw [List.mem_append, List.mem_singleton] at isMem
    obtain isMem | rfl := isMem
    · exact counted.below transfer' isMem
    · exact isBelow
  · intro h link' isLink' noneMidway'
    have isOther : h ≠ transfer.handle := by
      rintro rfl
      apply noneMidway' thread
      rw [Function.update_self]
      exact (isMidway _).mpr rfl
    rw [isSame h isOther]
    apply counted.whole h link' isLink'
    intro t midway
    apply noneMidway' t
    rw [Function.update_apply]
    split
    · rename_i isThread
      rw [isThread] at midway
      exact absurd midway (wasNot h)
    · exact midway
  · intro h link' t isLink' midway
    by_cases isHere : h = transfer.handle
    · subst isHere
      rw [isLink] at isLink'
      cases isLink'
      exact isNext
    · rw [isSame h isHere]
      apply counted.half h link' t isLink'
      rw [Function.update_apply] at midway
      split at midway
      · exact absurd ((isMidway h).mp midway).symm isHere
      · exact midway
  · intro transfer' isMem isFirst'
    rw [List.mem_append, List.mem_singleton] at isMem
    obtain isMem | rfl := isMem
    · obtain ⟨k, isLess, isId'⟩ := counted.ids transfer' isMem isFirst'
      refine ⟨k, Nat.lt_of_lt_of_le isLess ?_, isId'⟩
      rw [begun_concat]
      exact Nat.le_add_right _ _
    · rw [isNext]
      exact ⟨link.deliveryCount, Nat.lt_succ_self _, isId⟩
  · rw [List.filter_append, List.filter_cons_of_pos (by simp [isFirst]), List.filter_nil,
      List.map_append, List.nodup_append]
    refine ⟨counted.distinct, List.nodup_singleton _, ?_⟩
    rintro id isMem _ isSingle rfl
    rw [List.map_singleton, List.mem_singleton] at isSingle
    rw [List.mem_map] at isMem
    obtain ⟨transfer', isMem, rfl⟩ := isMem
    rw [List.mem_filter] at isMem
    obtain ⟨k, isLess, isId'⟩ := counted.ids transfer' isMem.1 isMem.2
    rw [isId', isId, Option.some_inj, Int.natCast_inj] at isSingle
    have := isUpTo transfer'.handle
    omega

theorem Counted.finish (counted : Counted next links calls sent) (alone : Alone next calls)
    (isLink : links handle = some link) (isMidway : ∀ h, (calls thread).isMidway h ↔ handle = h)
    (isCount : link'.deliveryCount = link.deliveryCount + 1) :
    Counted next (update links handle (some link')) (update calls thread .idle) sent := by
  have isThread : ∀ t, (calls t).isMidway handle → t = thread := by
    intro t midway
    have publishes : ∀ t, (calls t).isMidway handle → (calls t).publishes handle := fun t midway =>
      Call.publishes_of_isSending (Call.isSending_of_isMidway midway)
    exact alone.single t thread handle (publishes t midway)
      (Call.isOn_of_publishes (publishes thread ((isMidway handle).mpr rfl)))
  have isStill : ∀ t h, (update calls thread .idle t).isMidway h →
      t ≠ thread ∧ (calls t).isMidway h := by
    intro t h
    rw [Function.update_apply]
    split
    · exact fun midway => midway.elim
    · rename_i isOther
      exact fun midway => ⟨isOther, midway⟩
  constructor
  · exact counted.below
  · apply forall_update
    · intro _
      rw [isCount]
      exact counted.half handle link thread isLink ((isMidway handle).mpr rfl)
    · intro h isOther link'' isLink' noneMidway
      apply counted.whole h link'' isLink'
      intro t midway
      apply noneMidway t
      rw [Function.update_of_ne]
      · exact midway
      · rintro rfl
        exact isOther ((isMidway h).mp midway).symm
  · intro h link'' t isLink' midway
    obtain ⟨isOther, midway⟩ := isStill t h midway
    rw [Function.update_apply] at isLink'
    split at isLink'
    · rename_i isHere
      rw [isHere] at midway
      exact absurd (isThread t midway) isOther
    · exact counted.half h link'' t isLink' midway
  · exact counted.ids
  · exact counted.distinct

/-- The credit of each link is what the latest flow for its handle allows, and there is some while
a call sends. -/
structure Credited (links : Nat → Option Amqp10Link) (calls : Nat → Call)
    (latest : Int → Option Int) : Prop where
  byHandle : ∀ handle link, links handle = some link → link.handle = handle
  covered : ∀ handle link, links handle = some link → 0 < link.linkCredit →
    ∃ total, latest handle = some total ∧ link.deliveryCount + link.linkCredit ≤ total
  sends : ∀ handle link t, links handle = some link → (calls t).isSending handle →
    0 < link.linkCredit

variable {latest latest' : Int → Option Int}

variable {c : State} {f : Amqp10Frame} {p : Amqp10Performative}

theorem Credited.of_calls (credited : Credited links calls latest)
    (hasCredit : ∀ handle link, links handle = some link → call.isSending handle → 0 < link.linkCredit) :
    Credited links (update calls thread call) latest := by
  constructor
  · exact credited.byHandle
  · exact credited.covered
  · intro h link t isLink
    rw [Function.update_apply]
    split
    · exact hasCredit h link isLink
    · exact credited.sends h link t isLink

theorem Credited.of_link (credited : Credited links calls latest) (isHandle : link'.handle = handle)
    (isCovered : 0 < link'.linkCredit → ∃ total, latest' handle = some total ∧ link'.deliveryCount + link'.linkCredit ≤ total)
    (isSame : ∀ h : Nat, h ≠ handle → latest' h = latest h)
    (isSending : ∀ h, call.isSending h → h = handle ∧ 0 < link'.linkCredit)
    (noOther : ∀ t, t ≠ thread → ¬ (calls t).isSending handle) :
    Credited (update links handle (some link')) (update calls thread call) latest' := by
  constructor
  · exact forall_update isHandle fun h _ => credited.byHandle h
  · refine forall_update isCovered fun h isOther => ?_
    rw [isSame h isOther]
    exact credited.covered h
  · intro h link t
    rw [Function.update_apply, Function.update_apply]
    split <;> split
    · rintro ⟨⟩ sends
      exact (isSending h sends).2
    · rename_i isHere isOther
      rintro - sends
      rw [isHere] at sends
      exact absurd sends (noOther t isOther)
    · rename_i isOther isThread
      rintro - sends
      exact absurd (isSending h sends).1 isOther
    · exact credited.sends h link t

theorem Credited.attach (credited : Credited links calls latest) (alone : Alone next calls) :
    Credited (update links next (some ⟨next, 0, 0, []⟩)) calls latest := by
  constructor
  · exact forall_update rfl fun h _ => credited.byHandle h
  · exact forall_update (fun hasCredit => absurd hasCredit (Int.lt_irrefl 0))
      fun h _ => credited.covered h
  · intro h link t
    rw [Function.update_apply]
    split
    · rename_i isNew
      rw [isNew]
      intro _ sends
      have isOn := Call.isOn_of_publishes (Call.publishes_of_isSending sends)
      exact absurd (alone.below t next isOn) (Nat.lt_irrefl _)
    · exact credited.sends h link t

theorem Credited.covered_read (credited : Credited c.links c.calls c.latest)
    (rest : List Amqp10Frame) (isLink : c.links handle = some link)
    (isOrderly : ∀ credit, creditOf c.session f p = some credit → p.handle = some (handle : Int) ∧ (credit ≠ 0 → link.deliveryCount ≤ p.deliveryCount))
    (hasCredit : 0 < (awaitFlow c.session f p link).linkCredit) :
    ∃ total, (c.read f p rest).latest handle = some total ∧
      link.deliveryCount + (awaitFlow c.session f p link).linkCredit ≤ total := by
  rw [linkCredit_awaitFlow] at hasCredit ⊢
  cases isCredit : creditOf c.session f p with
  | none =>
      rw [isCredit] at hasCredit
      simp only [State.read, isCredit]
      exact credited.covered handle link isLink hasCredit
  | some credit =>
      obtain ⟨isHandle, isUpTo⟩ := isOrderly credit isCredit
      rw [isCredit, Option.getD_some] at hasCredit
      have isUpTo := isUpTo (by omega)
      simp only [State.read, isCredit, isHandle, Function.update_self, Option.getD_some]
      exact ⟨_, rfl, by omega⟩

theorem latest_read (rest : List Amqp10Frame)
    (isOrderly : ∀ credit, creditOf c.session f p = some credit → p.handle = some (handle : Int))
    {other : Nat} (isOther : other ≠ handle) : (c.read f p rest).latest other = c.latest other := by
  cases isCredit : creditOf c.session f p with
  | none => simp only [State.read, isCredit]
  | some credit =>
      have isOther : (other : Int) ≠ handle := by exact_mod_cast isOther
      simp only [State.read, isCredit, isOrderly credit isCredit, Function.update_of_ne isOther]

/-! ## Runs -/

/-- What holds in every state of an orderly run. -/
structure Sound (c : State) : Prop where
  attached : ∀ handle link, c.links handle = some link → handle < c.session.nextLinkHandle
  alone : Alone c.session.nextLinkHandle c.calls
  counted : Counted c.session.nextLinkHandle c.links c.calls c.sent
  credited : Credited c.links c.calls c.latest
  respected : CreditRespected c

theorem Sound.start (chanId : Int64) (maxFrameSize : Int) : Sound (.start chanId maxFrameSize) := by
  constructor
  · rintro _ _ ⟨⟩
  · constructor <;> simp [State.start, Call.isOn, Call.publishes]
  · constructor <;> simp [State.start]
  · constructor <;> simp [State.start]
  · intro before transfer after
    simp [State.start]

theorem Sound.attach (sound : Sound c) {rest : List Amqp10Frame}
    (noCredit : creditOf c.session f p = none) : Sound { c.read f p rest with
      session := { c.session with nextLinkHandle := c.session.nextLinkHandle + 1 }
      links := update c.links c.session.nextLinkHandle
        (some ⟨c.session.nextLinkHandle, 0, 0, []⟩) } := by
  have isLatest : (c.read f p rest).latest = c.latest := by
    simp only [State.read, noCredit]
  constructor
  · exact forall_update (Nat.lt_succ_self _) fun h _ link isLink =>
      Nat.lt_succ_of_lt (sound.attached h link isLink)
  · constructor
    · intro t h isOn
      exact Nat.lt_succ_of_lt (sound.alone.below t h isOn)
    · exact sound.alone.single
  · exact sound.counted.attach sound.alone
  · dsimp only
    rw [isLatest]
    exact sound.credited.attach sound.alone
  · exact sound.respected

theorem Sound.attachFailed (sound : Sound c) {rest : List Amqp10Frame}
    (noCredit : creditOf c.session f p = none) : Sound { c.read f p rest with
      session := { c.session with nextLinkHandle := c.session.nextLinkHandle + 1 } } := by
  have isLatest : (c.read f p rest).latest = c.latest := by
    simp only [State.read, noCredit]
  constructor
  · intro h link isLink
    exact Nat.lt_succ_of_lt (sound.attached h link isLink)
  · constructor
    · intro t h isOn
      exact Nat.lt_succ_of_lt (sound.alone.below t h isOn)
    · exact sound.alone.single
  · obtain ⟨below, whole, half, ids, distinct⟩ := sound.counted
    exact ⟨fun transfer isMem => Nat.lt_succ_of_lt (below transfer isMem), whole, half, ids,
      distinct⟩
  · dsimp only
    rw [isLatest]
    exact sound.credited
  · exact sound.respected

theorem Sound.begins (sound : Sound c) (isIdle : c.calls thread = .idle)
    (isLink : c.links handle = some link) (isOn : ∀ h, call.isOn h → h = handle)
    (notMidway : ∀ h, ¬ call.isMidway h) (hasCredit : ∀ h, call.isSending h → 0 < link.linkCredit)
    (nonePublishes : ∀ t, ¬ (c.calls t).publishes handle)
    (noneOn : ∀ h, call.publishes h → ∀ t, ¬ (c.calls t).isOn handle) :
    Sound { c with calls := update c.calls thread call } := by
  constructor
  · exact sound.attached
  · exact sound.alone.begins (sound.attached handle link isLink) isOn nonePublishes noneOn
  · apply sound.counted.of_same
    · apply Call.isMidway_update
      intro h
      rw [isIdle]
      exact iff_of_false (notMidway h) id
    · exact fun h link isLink => ⟨link, isLink, rfl⟩
  · apply sound.credited.of_calls
    intro h link' isLink' sends
    have isHere := isOn h (Call.isOn_of_publishes (Call.publishes_of_isSending sends))
    rw [isHere, isLink] at isLink'
    cases isLink'
    exact hasCredit h sends
  · exact sound.respected

theorem Sound.read {c : State} (sound : Sound c) {publication : Option Publication}
    {f : Amqp10Frame} {p : Amqp10Performative} {rest : List Amqp10Frame} {link' : Amqp10Link}
    {call : Call} (isAwaiting : c.calls thread = .awaiting handle publication)
    (isLink : c.links handle = some link) (isOrderly : Orderly c (.read thread f p))
    (isHandle : link'.handle = link.handle) (isCount : link'.deliveryCount = link.deliveryCount)
    (isCredit : link'.linkCredit = (awaitFlow c.session f p link).linkCredit)
    (isSending : ∀ h, call.isSending h → h = handle ∧ 0 < link'.linkCredit)
    (notMidway : ∀ h, ¬ call.isMidway h) (isOn : ∀ h, call.isOn h → h = handle)
    (publishes : ∀ h, call.publishes h → publication ≠ none) :
    Sound { c.read f p rest with
      links := update c.links handle (some link')
      calls := update c.calls thread call } := by
  have isOwn := fun credit => isOrderly handle publication link credit isAwaiting isLink
  constructor
  · exact forall_update (sound.attached handle link isLink) fun h _ => sound.attached h
  · apply sound.alone.goesOn
    · intro h isOn'
      rw [isAwaiting]
      exact (isOn h isOn').symm
    · intro h publishes'
      rw [isAwaiting]
      have isHere := isOn h (Call.isOn_of_publishes publishes')
      cases publication with
      | none => exact absurd rfl (publishes h publishes')
      | some publication => exact isHere.symm
  · apply sound.counted.of_same
    · apply Call.isMidway_update
      intro h
      rw [isAwaiting]
      exact iff_of_false (notMidway h) id
    · exact forall_update ⟨link, isLink, isCount.symm⟩ fun _ _ link'' isLink =>
        ⟨link'', isLink, rfl⟩
  · apply sound.credited.of_link
    · rw [isHandle]
      exact sound.credited.byHandle handle link isLink
    · rw [isCredit, isCount]
      exact sound.credited.covered_read rest isLink isOwn
    · exact fun h => latest_read rest fun credit isCredit => (isOwn credit isCredit).1
    · exact isSending
    · intro t isOther sends
      apply isOther
      apply sound.alone.single t thread handle (Call.publishes_of_isSending sends)
      rw [isAwaiting]
      exact rfl
  · exact sound.respected

theorem afterFlow_link (publication : Publication) (link : Amqp10Link) :
    (afterFlow publication link).1.handle = link.handle ∧
      (afterFlow publication link).1.deliveryCount = link.deliveryCount ∧
      (afterFlow publication link).1.linkCredit = link.linkCredit := by
  unfold afterFlow
  repeat' split
  all_goals exact ⟨rfl, rfl, rfl⟩

theorem afterFlow_call (publication : Publication) (link : Amqp10Link) :
    (afterFlow publication link).2 = .idle ∨
      (afterFlow publication link).2 = startSending publication link ∧ 0 < link.linkCredit := by
  unfold afterFlow
  split
  · exact Or.inl rfl
  · split
    · exact Or.inl rfl
    · rename_i hasCredit
      exact Or.inr ⟨rfl, not_le.mp hasCredit⟩

theorem Sound.publishRead {c : State} (sound : Sound c) {publication : Publication}
    {f : Amqp10Frame} {p : Amqp10Performative} {rest : List Amqp10Frame}
    (isAwaiting : c.calls thread = .awaiting handle (some publication))
    (isLink : c.links handle = some link) (isOrderly : Orderly c (.read thread f p)) :
    Sound { c.read f p rest with
      links := update c.links handle
        (some (afterFlow publication (awaitFlow c.session f p link)).1)
      calls := update c.calls thread
        (afterFlow publication (awaitFlow c.session f p link)).2 } := by
  obtain ⟨isHandle, isCount, isCredit⟩ :=
    afterFlow_link publication (awaitFlow c.session f p link)
  rw [handle_awaitFlow] at isHandle
  rw [deliveryCount_awaitFlow] at isCount
  have isCall := afterFlow_call publication (awaitFlow c.session f p link)
  have isOwn : (awaitFlow c.session f p link).handle = handle := by
    rw [handle_awaitFlow]
    exact sound.credited.byHandle handle link isLink
  apply sound.read isAwaiting isLink isOrderly isHandle isCount isCredit
  · intro h sends
    obtain isIdle | ⟨isStart, hasCredit⟩ := isCall
    · rw [isIdle] at sends
      exact sends.elim
    · rw [isStart] at sends
      rw [isCredit]
      exact ⟨sends.symm.trans isOwn, hasCredit⟩
  · intro h midway
    obtain isIdle | ⟨isStart, -⟩ := isCall
    · rw [isIdle] at midway
      exact midway
    · rw [isStart] at midway
      exact midway
  · intro h isOn
    obtain isIdle | ⟨isStart, -⟩ := isCall
    · rw [isIdle] at isOn
      exact isOn.elim
    · rw [isStart] at isOn
      exact isOn.symm.trans isOwn
  · exact fun _ _ => Option.some_ne_none publication

theorem CreditRespected.concat {c' : State} (respected : CreditRespected c)
    (isSent : c'.sent = c.sent ++ [transfer])
    (isAllowed : transfer.isFirst = true → ∃ total, transfer.allowed = some total ∧ (begun transfer.handle c.sent : Int) < total) :
    CreditRespected c' := by
  intro before transfer' after isSplit isFirst
  rw [isSent] at isSplit
  obtain rfl | ⟨after, last, rfl⟩ := List.eq_nil_or_concat' after
  · obtain ⟨rfl, isLast⟩ := List.append_inj' isSplit rfl
    cases isLast
    exact isAllowed isFirst
  · rw [← List.cons_append, ← List.append_assoc] at isSplit
    obtain ⟨isSplit, -⟩ := List.append_inj' isSplit rfl
    exact respected before transfer' after isSplit isFirst

theorem Sound.send {c : State} (sound : Sound c) {offset offset' : Nat}
    {msgBytes deliveryTag : List Int64} {txnState : Amqp10Value} {isFirst : Bool}
    (isSending : c.calls thread = .sending handle msgBytes deliveryTag txnState offset isFirst)
    (isLink : c.links handle = some link) (isOrderly : Orderly c (.send thread)) {more : Bool}
    {chunk : List Int64} :
    Sound { c with
      sent := c.sent ++ [{
        handle := handle
        isFirst := isFirst
        fields := transferFields link deliveryTag txnState more
        chunk := chunk
        allowed := c.latest handle }]
      calls := update c.calls thread
        (.sending handle msgBytes deliveryTag txnState offset' false) } := by
  have publishes : (c.calls thread).publishes handle := by
    rw [isSending]
    exact rfl
  have isBelow := sound.attached handle link isLink
  have hasCredit : 0 < link.linkCredit := by
    apply sound.credited.sends handle link thread isLink
    rw [isSending]
    exact rfl
  -- when it is the first part, no other call is in the middle of a delivery on the link
  have noneMidway : isFirst = true → ∀ t, ¬ (c.calls t).isMidway handle := by
    intro isFirst t midway
    have isThread := sound.alone.single t thread handle
      (Call.publishes_of_isSending (Call.isSending_of_isMidway midway))
      (Call.isOn_of_publishes publishes)
    rw [isThread, isSending, isFirst] at midway
    exact midway
  constructor
  · exact sound.attached
  · apply sound.alone.goesOn
    · intro h isOn
      rw [isSending]
      exact isOn
    · intro h publishes'
      rw [isSending]
      exact publishes'
  · cases isFirst with
    | false =>
        apply sound.counted.more isBelow rfl
        intro h
        rw [isSending]
        exact Iff.rfl
    | true =>
        obtain ⟨isSmall, isMost⟩ := isOrderly handle _ _ _ _ link isSending isLink
        apply sound.counted.first isLink isBelow rfl
        · have isInt : (Int64.ofNat link.deliveryCount).toInt = link.deliveryCount := by
            apply Int64.toInt_ofNat_of_lt
            omega
          have isId : ((link.deliveryCount : Int) % 2 ^ 32) = link.deliveryCount := by
            omega
          simp only [Transfer.deliveryId, transferFields, uIntAt, List.getElem?_cons_succ,
            List.getElem?_cons_zero, Option.map_some, isInt, isId]
        · exact fun h => Iff.rfl
        · intro h midway
          rw [isSending] at midway
          exact midway
        · exact noneMidway rfl
        · exact isMost
  · apply sound.credited.of_calls
    intro h link' isLink' sends
    cases sends
    rw [isLink] at isLink'
    cases isLink'
    exact hasCredit
  · apply sound.respected.concat rfl
    intro isFirst
    obtain ⟨total, isTotal, isCovered⟩ := sound.credited.covered handle link isLink hasCredit
    have isCount := sound.counted.whole handle link isLink (noneMidway isFirst)
    refine ⟨total, isTotal, ?_⟩
    dsimp only
    rw [isCount]
    omega

theorem Sound.finish (sound : Sound c) {offset : Nat} {msgBytes deliveryTag : List Int64}
    {txnState : Amqp10Value}
    (isSending : c.calls thread = .sending handle msgBytes deliveryTag txnState offset false)
    (isLink : c.links handle = some link) : Sound { c with
      links := update c.links handle (some { link with
        linkCredit := link.linkCredit - 1
        deliveryCount := link.deliveryCount + 1 })
      calls := update c.calls thread .idle } := by
  have isOn : (c.calls thread).isOn handle := by
    rw [isSending]
    exact rfl
  constructor
  · exact forall_update (sound.attached handle link isLink) fun h _ => sound.attached h
  · apply sound.alone.goesOn
    · exact fun _ isOn => isOn.elim
    · exact fun _ publishes => publishes.elim
  · apply sound.counted.finish sound.alone isLink
    · intro h
      rw [isSending]
      exact Iff.rfl
    · rfl
  · apply sound.credited.of_link
    · exact sound.credited.byHandle handle link isLink
    · dsimp only
      intro hasCredit
      obtain ⟨total, isTotal, isCovered⟩ :=
        sound.credited.covered handle link isLink (by omega)
      exact ⟨total, isTotal, by omega⟩
    · exact fun _ _ => rfl
    · exact fun _ sends => sends.elim
    · intro t isOther sends
      exact isOther (sound.alone.single t thread handle (Call.publishes_of_isSending sends) isOn)
  · exact sound.respected

theorem Sound.step {c c' : State} {action : Action} (sound : Sound c) (isStep : Step c action c')
    (isOrderly : Orderly c action) : Sound c' := by
  cases isStep with
  | arrive => exact ⟨sound.attached, sound.alone, sound.counted, sound.credited, sound.respected⟩
  | attach => exact sound.attach isOrderly
  | attachFailed => exact sound.attachFailed isOrderly
  | awaitFlow isIdle isLink =>
      apply sound.begins isIdle isLink
      · exact fun _ isHere => isHere.symm
      · exact fun _ => id
      · exact fun _ sends => sends.elim
      · exact isOrderly
      · exact fun _ publishes => publishes.elim
  | publishWaits isIdle isLink =>
      apply sound.begins isIdle isLink
      · exact fun _ isHere => isHere.symm
      · exact fun _ => id
      · exact fun _ sends => sends.elim
      · exact fun t publishes => isOrderly t (Call.isOn_of_publishes publishes)
      · exact fun _ _ => isOrderly
  | publishSends isIdle isLink hasCredit =>
      have isOwn := sound.credited.byHandle _ _ isLink
      apply sound.begins isIdle isLink
      · exact fun _ isHere => isHere.symm.trans isOwn
      · exact fun _ => id
      · exact fun _ _ => not_le.mp hasCredit
      · exact fun t publishes => isOrderly t (Call.isOn_of_publishes publishes)
      · exact fun _ _ => isOrderly
  | flowRead isAwaiting isLink =>
      apply sound.read isAwaiting isLink isOrderly (handle_awaitFlow _ _ _ _)
        (deliveryCount_awaitFlow _ _ _ _) rfl
      · exact fun _ sends => sends.elim
      · exact fun _ => id
      · exact fun _ isOn => isOn.elim
      · exact fun _ publishes => publishes.elim
  | publishRead isAwaiting isLink => exact sound.publishRead isAwaiting isLink isOrderly
  | send isSending _ isLink => exact sound.send isSending isLink isOrderly
  | finish isSending isDone isLink =>
      rw [not_or, Bool.not_eq_true] at isDone
      rw [isDone.2] at isSending
      exact sound.finish isSending isLink

theorem Orderly.othersKeepCredit {c' : State} {action : Action} (isStep : Step c action c')
    (isOrderly : Orderly c action) : OthersKeepCredit c action c' := by
  rintro thread f p flowHandle rfl hasCredit isFlow other isOther
  obtain ⟨credit, isCredit⟩ := Option.ne_none_iff_exists'.mp hasCredit
  have notOther : ∀ handle publication link, c.calls thread = .awaiting handle publication →
      c.links handle = some link → other ≠ handle := by
    rintro handle publication link isAwaiting isLink rfl
    have isOwn := (isOrderly _ publication link credit isAwaiting isLink isCredit).1
    rw [isFlow] at isOwn
    exact isOther (Option.some_inj.mp isOwn).symm
  cases isStep with
  | flowRead isAwaiting isLink | publishRead isAwaiting isLink =>
      exact congrArg (Option.map Amqp10Link.linkCredit)
        (Function.update_of_ne (notOther _ _ _ isAwaiting isLink) _ _)

/-- In an orderly run every delivery is covered by credit for its link and has an id of its own,
and no flow changes the credit of another link. -/
theorem orderly_respectsCredit (c : State) (reached : OrderlyRun c) :
    CreditRespected c ∧ DistinctIds c ∧
      ∀ action c', Step c action c' → Orderly c action → OthersKeepCredit c action c' := by
  have sound : Sound c := by
    apply Reached.invariant _ _ reached
    · rintro _ ⟨chanId, maxFrameSize, rfl⟩
      exact Sound.start chanId maxFrameSize
    · rintro c action c' sound ⟨isStep, isOrderly⟩
      exact sound.step isStep isOrderly
  constructor
  · exact sound.respected
  · constructor
    · exact sound.counted.distinct
    · exact fun _ _ isStep isOrderly => isOrderly.othersKeepCredit isStep

theorem OrderlyRun.step {c c' : State} {action : Action} (reached : OrderlyRun c)
    (isStep : Step c action c') (isOrderly : Orderly c action) : OrderlyRun c' :=
  Reached.step reached ⟨isStep, isOrderly⟩

theorem decodes_encodePerformative {descriptor : Int64} {fields : List Amqp10Value}
    (inRange : Everywhere InRange (.describedVal descriptor (.listVal fields)))
    (fits : Everywhere Fits (.describedVal descriptor (.listVal fields))) :
    Decodes (encodePerformative descriptor fields) ⟨descriptor, fields⟩ := by
  refine ⟨height (.describedVal descriptor (.listVal fields)) + 1, ?_⟩
  intro fuel large
  have isEnough : height (.describedVal descriptor (.listVal fields)) < fuel := large
  have isRead := readsBack _ inRange fits fuel [] 0
  rw [List.append_nil, if_pos isEnough] at isRead
  rw [decodePerformative, encodePerformative, isRead]
  rfl

/-- An answer of the broker to an attach. -/
def attached : Amqp10Frame := ⟨0, 1, encodePerformative 0x12 []⟩

/-- The fields of a flow. -/
def flowFields (handle deliveryCount linkCredit : Int64) : List Amqp10Value :=
  [.nullVal, .uIntVal 2147483647, .uIntVal 0, .uIntVal 2147483647, .uIntVal handle,
    .uIntVal deliveryCount, .uIntVal linkCredit]

theorem decodes_attached : Decodes attached.body ⟨0x12, []⟩ :=
  decodes_encodePerformative ⟨⟨by decide, by decide⟩, trivial, trivial⟩
    ⟨trivial, (by decide : 0 < 2 ^ 32), trivial⟩

theorem decodes_flow {handle deliveryCount linkCredit : Int64} (isHandle : Between 0 (2 ^ 32) handle)
    (isCount : Between 0 (2 ^ 32) deliveryCount) (isCredit : Between 0 (2 ^ 32) linkCredit) :
    Decodes (encodePerformative 0x13 (flowFields handle deliveryCount linkCredit))
      ⟨0x13, flowFields handle deliveryCount linkCredit⟩ := by
  apply decodes_encodePerformative
  · exact ⟨⟨by decide, by decide⟩, trivial, trivial, ⟨by decide, by decide⟩, ⟨by decide, by decide⟩,
      ⟨by decide, by decide⟩, isHandle, isCount, isCredit, trivial⟩
  · exact ⟨trivial, (by decide : 7 < 2 ^ 32), trivial, trivial, trivial, trivial, trivial, trivial,
      trivial, trivial⟩

/-- The flow that gives a link credit for one delivery. -/
def flowFor (handle : Int64) : Amqp10Frame := ⟨0, 1, encodePerformative 0x13 (flowFields handle 0 1)⟩

theorem Orderly.read {c : State} {publication : Option Publication} {f : Amqp10Frame}
    {p : Amqp10Performative} (isAwaiting : c.calls thread = .awaiting handle publication)
    (isLink : c.links handle = some link) (isOwn : p.handle = some (handle : Int))
    (isUpTo : link.deliveryCount ≤ p.deliveryCount) : Orderly c (.read thread f p) := by
  intro handle' publication' link' credit isAwaiting' isLink' _
  rw [isAwaiting] at isAwaiting'
  cases isAwaiting'
  rw [isLink] at isLink'
  cases isLink'
  exact ⟨isOwn, fun _ => isUpTo⟩

theorem Orderly.send {c : State} {msgBytes deliveryTag : List Int64} {txnState : Amqp10Value}
    {offset : Nat} {isFirst : Bool}
    (isSending : c.calls thread = .sending handle msgBytes deliveryTag txnState offset isFirst)
    (isLink : c.links handle = some link) (isSmall : link.deliveryCount < 2 ^ 32)
    (noneSent : c.sent = []) : Orderly c (.send thread) := by
  intro handle' _ _ _ _ link' isSending' isLink'
  rw [isSending] at isSending'
  cases isSending'
  rw [isLink] at isLink'
  cases isLink'
  rw [noneSent]
  exact ⟨isSmall, fun _ _ => Nat.zero_le _⟩

/-- A session with links that have been attached. -/
def State.linked (links : Nat → Option Amqp10Link) (next : Nat) : State :=
  { State.start 1 512 with
    session := ⟨1, 512, next⟩
    links := links }

/-- A new link. -/
def newLink (handle : Nat) : Amqp10Link := ⟨handle, 0, 0, []⟩

/-- A link that is attached, waits for credit and sends one message. -/
theorem orderly_respectsCredit_oneLink :
    ∃ c : State, c.sent.length = 1 ∧ CreditRespected c ∧ DistinctIds c ∧
      ∀ action c', Step c action c' → Orderly c action → OthersKeepCredit c action c' := by
  have start : OrderlyRun (.start 1 512) := Reached.start ⟨1, 512, rfl⟩
  have isAttached : OrderlyRun (.linked (update (fun _ => none) 0 (newLink 0)) 1) :=
    (start.step (@Step.arrive _ attached) trivial).step
      (Step.attach rfl decodes_attached rfl rfl) rfl
  have waits := (isAttached.step (@Step.arrive _ (flowFor 0)) trivial).step
    (@Step.publishWaits _ 0 0 (publish [72] []) (newLink 0) rfl rfl (le_refl _))
    (fun _ isOn => isOn)
  have isDecoded := @decodes_flow 0 0 1 ⟨by decide, by decide⟩ ⟨by decide, by decide⟩
    ⟨by decide, by decide⟩
  have sends := waits.step (@Step.publishRead _ 0 0 (publish [72] []) (newLink 0) (flowFor 0) _ []
    rfl rfl rfl isDecoded) (@Orderly.read 0 (newLink 0) 0 _ (some (publish [72] [])) _ _ rfl rfl rfl
    (le_refl _))
  have sent := sends.step (@Step.send _ 0 0 0 (encodeMessageBody [72] []) (deliveryTagBytes 0)
    .nullVal true ⟨0, 1, 0, []⟩ rfl (Or.inr rfl) rfl)
    (@Orderly.send 0 ⟨0, 1, 0, []⟩ 0 _ (encodeMessageBody [72] []) (deliveryTagBytes 0) .nullVal 0
      true rfl rfl (by decide) rfl)
  exact ⟨_, rfl, orderly_respectsCredit _ sent⟩

theorem Run.step {c c' : State} {action : Action} (reached : Run c) (isStep : Step c action c') :
    Run c' :=
  Reached.step reached isStep

/-- Two links. -/
def twoLinks : Nat → Option Amqp10Link :=
  update (update (fun _ => none) 0 (newLink 0)) 1 (newLink 1)

theorem run_twoLinks : Run (.linked twoLinks 2) :=
  (((Run.step (Reached.start ⟨1, 512, rfl⟩) (@Step.arrive _ attached)).step
    (Step.attach rfl decodes_attached rfl rfl)).step (@Step.arrive _ attached)).step
    (Step.attach rfl decodes_attached rfl rfl)

/-- What `flowFor` is decoded to. -/
def flowPerformative (handle : Int64) : Amqp10Performative := ⟨0x13, flowFields handle 0 1⟩

/-- A link that waits for credit takes a flow that is for another one, and sends; and two links
number their deliveries alike. -/
theorem flow_otherLink :
    (∃ c, Run c ∧ ¬ CreditRespected c) ∧
      (∃ c action c', Run c ∧ Step c action c' ∧ ¬ OthersKeepCredit c action c') ∧
      ∃ c, Run c ∧ ¬ DistinctIds c := by
  have isZero : Between 0 (2 ^ 32) 0 := ⟨by decide, by decide⟩
  have isOne : Between 0 (2 ^ 32) 1 := ⟨by decide, by decide⟩
  have isFlow : Decodes (flowFor 1).body (flowPerformative 1) := decodes_flow isOne isZero isOne
  have isOwn : Decodes (flowFor 0).body (flowPerformative 0) := decodes_flow isZero isZero isOne
  have waits := (run_twoLinks.step (@Step.arrive _ (flowFor 1))).step
    (@Step.publishWaits _ 0 0 (publish [72] []) (newLink 0) rfl rfl (le_refl _))
  constructor
  · have sends := waits.step (@Step.publishRead _ 0 0 (publish [72] []) (newLink 0) (flowFor 1)
      (flowPerformative 1) [] rfl rfl rfl isFlow)
    have sent := sends.step (@Step.send _ 0 0 0 (encodeMessageBody [72] []) (deliveryTagBytes 0)
      .nullVal true ⟨0, 1, 0, []⟩ rfl (Or.inr rfl) rfl)
    refine ⟨_, sent, ?_⟩
    intro respected
    obtain ⟨total, isTotal, -⟩ := respected [] _ [] rfl rfl
    cases isTotal
  · constructor
    · refine ⟨_, _, _, waits, @Step.publishRead _ 0 0 (publish [72] []) (newLink 0) (flowFor 1)
        (flowPerformative 1) [] rfl rfl rfl isFlow, ?_⟩
      intro keeps
      have isSame := keeps 0 (flowFor 1) (flowPerformative 1) 1 rfl (Option.some_ne_none 1) rfl 0
        (by decide)
      cases isSame
    · have waits := (run_twoLinks.step (@Step.arrive _ (flowFor 0))).step
        (@Step.publishWaits _ 0 0 (publish [72] []) (newLink 0) rfl rfl (le_refl _))
      have sends := waits.step (@Step.publishRead _ 0 0 (publish [72] []) (newLink 0) (flowFor 0)
        (flowPerformative 0) [] rfl rfl rfl isOwn)
      have sent := sends.step (@Step.send _ 0 0 0 (encodeMessageBody [72] []) (deliveryTagBytes 0)
        .nullVal true ⟨0, 1, 0, []⟩ rfl (Or.inr rfl) rfl)
      have waits' := (sent.step (@Step.arrive _ (flowFor 1))).step
        (@Step.publishWaits _ 1 1 (publish [72] []) (newLink 1) rfl rfl (le_refl _))
      have sends' := waits'.step (@Step.publishRead _ 1 1 (publish [72] []) (newLink 1) (flowFor 1)
        (flowPerformative 1) [] rfl rfl rfl isFlow)
      have sent' := sends'.step (@Step.send _ 1 1 0 (encodeMessageBody [72] [])
        (deliveryTagBytes 0) .nullVal true ⟨1, 1, 0, []⟩ rfl (Or.inr rfl) rfl)
      refine ⟨_, sent', ?_⟩
      intro distinct
      have isTwice : ¬ [some (0 : Int), some 0].Nodup := by decide
      exact isTwice distinct

end Tinox.Amqp.Links
