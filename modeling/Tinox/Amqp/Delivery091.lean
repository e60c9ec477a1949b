import Tinox.Amqp.Framing091

/-!
# From the socket to the inboxes

The dispatcher gets its frames from `Amqp091::readFrame`, while other threads open channels, receive
from them and write to the same connection.
-/

namespace Tinox.Amqp.Channels

open Tinox.Net Tinox.Runtime Dispatch Runs

/-- A connection with its socket, and the frames that have been read. -/
structure Wired where
  connection : Connection
  socket : TinoxConn
  read : List AmqpFrame091

def Wired.start (socket : TinoxConn) : Wired :=
  ⟨.start, socket, []⟩

/-- A statement of one thread, or a write to the socket. -/
inductive WiredStep (s : Wired) : Option Action → Wired → Prop where
  | read {c' : Connection} : Step s.connection (.read (readFrame s.socket).1) c' →
      WiredStep s (some (.read (readFrame s.socket).1))
        ⟨c', (readFrame s.socket).2, s.read ++ [(readFrame s.socket).1]⟩
  | other {action : Action} {c' : Connection} : (∀ f, action ≠ .read f) →
      Step s.connection action c' → WiredStep s (some action) { s with connection := c' }
  | write (bytes : List UInt8) : WiredStep s none
      { s with socket := { s.socket with outgoing := s.socket.outgoing ++ bytes } }

def OrderlyStep (s : Wired) (action : Option Action) (s' : Wired) : Prop :=
  WiredStep s action s' ∧ ∀ taken ∈ action, Orderly s.connection taken

/-- A frame whose fields are within their ranges, and which is not too large for the reader. -/
structure OnWire (f : AmqpFrame091) : Prop where
  type : Between 0 (2 ^ 8) f.frameType
  channel : f.chanId < 2 ^ 16
  payload : AreBytes f.payload
  fits : f.payload.length ≤ 16777216

/-- The bytes of frames that are written one after the other. -/
def wire (frames : List AmqpFrame091) : List UInt8 :=
  frames.flatMap fun f => (writeFrame f.frameType (Int64.ofNat f.chanId) f.payload).map lowByte

/-- The frames that the dispatcher routes to the channel with an id. -/
def isFor (chanId : Nat) (f : AmqpFrame091) : Bool :=
  f.frameType != -1 && f.frameType != 8 && f.chanId != 0 && f.chanId == chanId

variable {c c' : Connection} {s s' : Wired} {socket : TinoxConn} {f : AmqpFrame091}
  {frames : List AmqpFrame091} {more : List UInt8} {action : Option Action}

theorem readFrame_wire (isFrame : OnWire f)
    (isStream : socket.incoming.flatten = wire (f :: frames) ++ more) :
    ∃ later, readFrame socket = (f, { socket with incoming := later }) ∧
      later.flatten = wire frames ++ more := by
  have small := isFrame.channel
  have isInt : (Int64.ofNat f.chanId).toInt = f.chanId := Int64.toInt_ofNat_of_lt (by omega)
  have isChannel : Between 0 (2 ^ 16) (Int64.ofNat f.chanId) := by
    rw [Between, isInt]
    omega
  rw [wire, List.flatMap_cons, List.append_assoc] at isStream
  rcases readFrame_writeFrame socket isFrame.type isChannel isFrame.payload isFrame.fits isStream with
    ⟨later, isRead, isRest⟩
  rw [isInt, Int.toNat_natCast] at isRead
  exact ⟨later, isRead, isRest⟩

/-- What one statement adds to the frames that have arrived for a registered channel. -/
theorem arrived_step {taken : Action} (isStep : Step c taken c') :
    c.channelIds <+: c'.channelIds ∧ ∀ chanId ∈ c.channelIds,
      c'.arrived chanId = c.arrived chanId ++
        match taken with
        | .read f => [f].filter (isFor chanId)
        | _ => [] := by
  cases isStep with
  | pushId _ => exact ⟨List.prefix_append _ _, fun _ _ => (List.append_nil _).symm⟩
  | readEnd _ isType | readHeartbeat _ isType =>
      refine ⟨List.prefix_rfl, fun chanId _ => ?_⟩
      simp [isFor, isType]
  | readConnection _ _ _ isConnection =>
      refine ⟨List.prefix_rfl, fun chanId _ => ?_⟩
      simp [isFor, isConnection]
  | @readChannel f _ notEnd notHeartbeat notConnection =>
      refine ⟨List.prefix_rfl, fun chanId isMem => ?_⟩
      dsimp only
      by_cases isChannel : f.chanId = chanId
      · have isRouted : isFor chanId f = true := by
          simp [isFor, ← isChannel, notEnd, notHeartbeat, notConnection]
        rw [isChannel, if_pos isMem, Function.update_self, List.filter_cons_of_pos isRouted,
          List.filter_nil]
      · have notRouted : ¬ isFor chanId f = true := by simp [isFor, isChannel]
        rw [List.filter_cons_of_neg notRouted, List.filter_nil, List.append_nil]
        split
        · exact Function.update_of_ne (Ne.symm isChannel) _ _
        · rfl
  | _ => exact ⟨List.prefix_rfl, fun _ _ => (List.append_nil _).symm⟩

/-- What has been read since a state, and what of it has arrived for the channels that were
registered then. -/
structure Since (s s' : Wired) : Prop where
  registered : s.connection.channelIds <+: s'.connection.channelIds
  arrived : ∃ new, s'.read = s.read ++ new ∧ ∀ chanId ∈ s.connection.channelIds,
    s'.connection.arrived chanId = s.connection.arrived chanId ++ new.filter (isFor chanId)

theorem Since.refl (s : Wired) : Since s s :=
  ⟨List.prefix_rfl, [], (List.append_nil _).symm, fun _ _ => (List.append_nil _).symm⟩

theorem Since.step {s'' : Wired} (since : Since s s') (isStep : WiredStep s' action s'') :
    Since s s'' := by
  rcases since with ⟨registered, new, isNew, arrived⟩
  cases isStep with
  | read isStep =>
      rcases arrived_step isStep with ⟨registered', arrived'⟩
      refine ⟨registered.trans registered', new ++ [(readFrame s'.socket).1], ?_, fun chanId isMem => ?_⟩
      · rw [isNew, List.append_assoc]
      · rw [arrived' chanId (registered.subset isMem), arrived chanId isMem, List.filter_append,
          List.append_assoc]
  | @other taken _ notRead isStep =>
      rcases arrived_step isStep with ⟨registered', arrived'⟩
      refine ⟨registered.trans registered', new, isNew, fun chanId isMem => ?_⟩
      rw [arrived' chanId (registered.subset isMem), arrived chanId isMem]
      cases taken with
      | read f => exact absurd rfl (notRead f)
      | _ => exact List.append_nil _
  | write _ => exact ⟨registered, new, isNew, arrived⟩

/-- The connection is sound, and what has been read is the front of what was written, until all of
that has been read. -/
structure Follows (frames : List AmqpFrame091) (more : List UInt8) (s : Wired) : Prop where
  sound : Sound s.connection
  read : frames <+: s.read ∨ ∃ unread, s.read ++ unread = frames ∧
    s.socket.incoming.flatten = wire unread ++ more

theorem Follows.step (areFrames : ∀ f ∈ frames, OnWire f) (follows : Follows frames more s)
    (isStep : OrderlyStep s action s') : Follows frames more s' := by
  rcases isStep with ⟨isStep, isOrderly⟩
  cases isStep with
  | read isStep =>
      refine ⟨follows.sound.step isStep (isOrderly _ rfl), ?_⟩
      rcases follows.read with all | ⟨unread, isUnread, isStream⟩
      · exact Or.inl (all.trans (List.prefix_append _ _))
      · cases unread with
        | nil =>
            rw [List.append_nil] at isUnread
            exact Or.inl (isUnread ▸ List.prefix_append _ _)
        | cons f unread =>
            have isFrame := areFrames f (isUnread ▸ List.mem_append_right _ List.mem_cons_self)
            rcases readFrame_wire isFrame isStream with ⟨later, isRead, isRest⟩
            rw [isRead]
            exact Or.inr ⟨unread, by rw [← isUnread, List.append_assoc]; rfl, isRest⟩
  | other _ isStep => exact ⟨follows.sound.step isStep (isOrderly _ rfl), follows.read⟩
  | write _ => exact ⟨follows.sound, follows.read⟩

end Tinox.Amqp.Channels
