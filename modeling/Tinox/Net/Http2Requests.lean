import Tinox.Net.Http2Streams
import Tinox.Net.Traces

/-!
# Requests of a connection run once

What the trace of a connection says about each request that is run, and when it is so.
-/

namespace Tinox.Net

open Tinox.Runtime Traces

variable {App : Type}

/-- The payload of a frame without its padding. -/
def unpadded (frame : Http2Frame) : List Int64 :=
  if frame.has Http2Flags.PADDED then
    match frame.payload with
    | [] => []
    | padLength :: rest => rest.take (rest.length - padLength.toInt.toNat)
  else frame.payload

/-- The data that an event brings to a stream. -/
def Event.data (streamId : Int64) : Event → List Int64
  | .received frame =>
      if frame.type = Http2FrameType.DATA ∧ frame.streamId = streamId then unpadded frame else []
  | _ => []

/-- The data that a stream has received. -/
def received (trace : List Event) (streamId : Int64) : List Int64 :=
  trace.flatMap (Event.data streamId)

/-- An event after which a stream runs no more: it has run, or either side has reset it. -/
def Event.Finishes (streamId : Int64) : Event → Prop
  | .received frame => frame.Resets streamId
  | .sent frame => frame.Resets streamId
  | .ran id _ _ _ => id = streamId

/-- A stream that has neither run nor been reset. -/
def Live (trace : List Event) (streamId : Int64) : Prop :=
  ∀ event ∈ trace, ¬ event.Finishes streamId

/-- The end of a stream's headers has been received. -/
def HeadersEnded (trace : List Event) (streamId : Int64) : Prop :=
  ∃ frame, Event.received frame ∈ trace ∧ frame.streamId = streamId ∧
    (frame.type = Http2FrameType.HEADERS ∨ frame.type = Http2FrameType.CONTINUATION) ∧
    frame.has Http2Flags.END_HEADERS

/-- The end of a stream has been received. -/
def StreamEnded (trace : List Event) (streamId : Int64) : Prop :=
  ∃ frame, Event.received frame ∈ trace ∧ frame.streamId = streamId ∧
    (frame.type = Http2FrameType.HEADERS ∨ frame.type = Http2FrameType.DATA) ∧
    frame.has Http2Flags.END_STREAM

/-- A request is run once, when its stream has been received in full, with the data of the
stream, and is answered once. -/
def RunsWell (before : List Event) : Event → Prop
  | .received _ => True
  | .ran streamId _ _ request =>
      Live before streamId ∧ HeadersEnded before streamId ∧ StreamEnded before streamId ∧
        request.body = (received before streamId).map lowByte
  | .sent frame => frame.type = Http2FrameType.HEADERS →
      ∀ other, Event.sent other ∈ before → other.type = Http2FrameType.HEADERS →
        other.streamId ≠ frame.streamId

/-- A frame that makes a request run finds its stream live, and no zero byte in its data. -/
def CompletesLive (conn : Http2Conn App) (frame : Http2Frame) : Prop :=
  ∀ stream, collected conn frame = some stream → overlong frame stream = false →
    completes frame stream → Live conn.trace frame.streamId ∧ 0 ∉ stream.body.map lowByte

variable {frame : Http2Frame}

theorem content_padded {padLength : Int64} {rest : List Int64}
    (isPayload : frame.payload = padLength :: rest) (payloadOffset : Nat) :
    content frame (payloadOffset + 1) padLength =
      (rest.take (rest.length - padLength.toInt.toNat)).drop payloadOffset := by
  rw [content, isPayload, List.length_cons]
  cases isEnd : (((rest.length + 1 : Nat) : Int) - padLength.toInt).toNat with
  | zero =>
      have noRest : rest.length - padLength.toInt.toNat = 0 := by omega
      rw [noRest, List.take_zero, List.take_zero, List.drop_nil, List.drop_nil]
  | succ n =>
      have sameRest : rest.take n = rest.take (rest.length - padLength.toInt.toNat) := by
        rw [List.take_eq_take_iff]
        omega
      rw [List.take_succ_cons, List.drop_succ_cons, sameRest]

theorem content_eq {padLength : Int64} {payloadOffset : Nat}
    (isPadding : padding frame = some (padLength, payloadOffset)) (more : Nat) :
    content frame (payloadOffset + more) padLength = (unpadded frame).drop more := by
  rw [padding] at isPadding
  rw [unpadded]
  split at isPadding
  · next padded =>
      rw [if_pos padded]
      cases isPayload : frame.payload with
      | nil =>
          rw [isPayload] at isPadding
          cases isPadding
      | cons first rest =>
          rw [isPayload] at isPadding
          cases isPadding
          rw [Nat.add_comm]
          exact content_padded isPayload more
  · next notPadded =>
      cases isPadding
      rw [if_neg notPadded, content, Nat.zero_add]
      change (frame.payload.take ((frame.payload.length : Int) - 0).toNat).drop more = _
      rw [Int.sub_zero, Int.toNat_natCast, List.take_length]

theorem dataContent_eq {data : List Int64} (isData : dataContent frame = some data) :
    data = unpadded frame := by
  rcases Option.bind_eq_some_iff.mp isData with ⟨⟨padLength, payloadOffset⟩, isPadding, isContent⟩
  cases isContent
  exact content_eq isPadding 0

/-- What is known of a live stream. -/
def Collects (trace : List Event) (streamId : Int64) : Option Http2Stream → Prop
  | none => received trace streamId = []
  | some stream => stream.body = received trace streamId ∧
      (stream.endStream → StreamEnded trace streamId) ∧
      (stream.expectingContinuation = false → HeadersEnded trace streamId)

/-- What every connection keeps. -/
structure Keeps (conn : Http2Conn App) : Prop where
  named : ∀ id stream, conn.streams id = some stream → stream.id = id
  collects : ∀ id, Live conn.trace id → Collects conn.trace id (conn.streams id)
  answered : ∀ frame, Event.sent frame ∈ conn.trace → frame.type = Http2FrameType.HEADERS →
    ¬ Live conn.trace frame.streamId

variable {trace more : List Event} {streamId id : Int64} {conn conn' : Http2Conn App}
  {stream : Http2Stream}

theorem live_append : Live (trace ++ more) streamId ↔
      Live trace streamId ∧ ∀ event ∈ more, ¬ event.Finishes streamId :=
  List.forall_mem_append

theorem received_append (trace more : List Event) (streamId : Int64) :
    received (trace ++ more) streamId = received trace streamId ++ received more streamId :=
  List.flatMap_append

theorem received_of_ne (other : frame.type ≠ Http2FrameType.DATA ∨ frame.streamId ≠ streamId)
    (noData : received more streamId = []) : received (.received frame :: more) streamId = [] := by
  change (if _ then _ else _) ++ received more streamId = []
  rw [if_neg fun same => other.elim (· same.1) (· same.2), noData, List.append_nil]

theorem received_data (isData : frame.type = Http2FrameType.DATA) :
    received [Event.received frame] frame.streamId = unpadded frame := by
  change (if _ then _ else _) ++ [] = _
  rw [if_pos ⟨isData, rfl⟩, List.append_nil]

theorem received_sent (frames : List Http2Frame) (streamId : Int64) :
    received (frames.map .sent) streamId = [] := by
  rw [received, List.flatMap_eq_nil_iff]
  intro event member
  rcases List.mem_map.mp member with ⟨frame, -, rfl⟩
  rfl

theorem HeadersEnded.mono (ended : HeadersEnded trace streamId) (more : List Event) :
    HeadersEnded (trace ++ more) streamId := by
  rcases ended with ⟨frame, member, isEnd⟩
  exact ⟨frame, List.mem_append_left more member, isEnd⟩

theorem StreamEnded.mono (ended : StreamEnded trace streamId) (more : List Event) :
    StreamEnded (trace ++ more) streamId := by
  rcases ended with ⟨frame, member, isEnd⟩
  exact ⟨frame, List.mem_append_left more member, isEnd⟩

theorem Collects.mono {known known' : Option Http2Stream} (collects : Collects trace streamId known)
    (noData : received more streamId = []) (same : SameStream known known') :
    Collects (trace ++ more) streamId known' := by
  have sameData : received (trace ++ more) streamId = received trace streamId := by
    rw [received_append, noData, List.append_nil]
  cases known with
  | none =>
      cases known' with
      | none => exact sameData.trans collects
      | some stream => cases same
  | some stream =>
      cases known' with
      | none => cases same
      | some stream' =>
          rcases collects with ⟨isBody, streamEnds, headersEnd⟩
          have isSame := Option.some.inj same
          have sameBody := congrArg Http2Stream.body isSame
          have sameEnd := congrArg Http2Stream.endStream isSame
          have sameExpect := congrArg Http2Stream.expectingContinuation isSame
          dsimp only at sameBody sameEnd sameExpect
          rw [Collects, sameBody, sameEnd, sameExpect, sameData]
          exact ⟨isBody, fun isEnd => (streamEnds isEnd).mono more,
            fun isEnd => (headersEnd isEnd).mono more⟩

theorem Gathers.id_eq (named : ∀ id stream, conn.streams id = some stream → stream.id = id)
    (gathers : Gathers conn frame stream) : stream.id = frame.streamId := by
  cases gathers with
  | headers before fragment isHeaders isStream isFragment =>
      cases known : conn.streams frame.streamId with
      | none =>
          rw [← isStream, known]
          rfl
      | some stream =>
          rw [← isStream, known]
          exact named _ stream known
  | continuation before isContinuation known | data before bytes isData known isContent =>
      exact named _ before known

theorem streamEnded_of_frame {before : Bool}
    (isType : frame.type = Http2FrameType.HEADERS ∨ frame.type = Http2FrameType.DATA)
    (ended : before → StreamEnded trace frame.streamId)
    (isEnd : (if frame.has Http2Flags.END_STREAM then true else before) = true) :
    StreamEnded (trace ++ [Event.received frame]) frame.streamId := by
  split at isEnd
  · next endStream =>
      exact ⟨frame, List.mem_append_right _ (List.mem_singleton_self _), rfl, isType, endStream⟩
  · exact (ended isEnd).mono _

theorem Collects.gathers {conn : Http2Conn App} {frame : Http2Frame} {stream : Http2Stream}
    (collects : Collects conn.trace frame.streamId (conn.streams frame.streamId))
    (gathers : Gathers conn frame stream) :
    Collects (conn.trace ++ [Event.received frame]) frame.streamId (some stream) := by
  have isNew : Event.received frame ∈ conn.trace ++ [Event.received frame] :=
    List.mem_append_right _ (List.mem_singleton_self _)
  cases gathers with
  | headers before fragment isHeaders isStream isFragment =>
      have notData : frame.type ≠ Http2FrameType.DATA := by
        rw [isHeaders]
        decide
      have isBefore : before.body = received conn.trace frame.streamId ∧
          (before.endStream → StreamEnded conn.trace frame.streamId) := by
        rw [← isStream]
        cases known : conn.streams frame.streamId with
        | none =>
            rw [known] at collects
            exact ⟨collects.symm, nofun⟩
        | some stream =>
            rw [known] at collects
            exact ⟨collects.1, collects.2.1⟩
      refine ⟨?_, streamEnded_of_frame (Or.inl isHeaders) isBefore.2, ?_⟩
      · rw [received_append, received_of_ne (Or.inl notData) rfl, List.append_nil]
        exact isBefore.1
      · intro endHeaders
        exact ⟨frame, isNew, rfl, Or.inl isHeaders, Bool.not_eq_false' .. ▸ endHeaders⟩
  | continuation before isContinuation known =>
      have notData : frame.type ≠ Http2FrameType.DATA := by
        rw [isContinuation]
        decide
      rw [known] at collects
      rcases collects with ⟨isBody, streamEnds, headersEnd⟩
      refine ⟨?_, fun isEnd => (streamEnds isEnd).mono _, ?_⟩
      · rw [received_append, received_of_ne (Or.inl notData) rfl, List.append_nil]
        exact isBody
      · intro endHeaders
        rcases Bool.and_eq_false_iff.mp endHeaders with already | isEnd
        · exact (headersEnd already).mono _
        · exact ⟨frame, isNew, rfl, Or.inr isContinuation, Bool.not_eq_false' .. ▸ isEnd⟩
  | data before bytes isData known isContent =>
      rw [known] at collects
      rcases collects with ⟨isBody, streamEnds, headersEnd⟩
      refine ⟨?_, streamEnded_of_frame (Or.inr isData) streamEnds,
        fun ended => (headersEnd ended).mono _⟩
      rw [received_append, received_data isData, ← dataContent_eq isContent, ← isBody]

theorem SameStream.id_eq {known known' : Option Http2Stream} (same : SameStream known known')
    (isKnown : known' = some stream) : ∃ before, known = some before ∧ before.id = stream.id := by
  subst isKnown
  cases known with
  | none => cases same
  | some before => exact ⟨before, rfl, (congrArg Http2Stream.id (Option.some.inj same)).symm⟩

theorem named_setStream (named : ∀ id stream, conn.streams id = some stream → stream.id = id)
    (isId : stream.id = id) (streams : conn'.streams = (conn.setStream id stream).streams) :
    ∀ id stream, conn'.streams id = some stream → stream.id = id := by
  intro other found isFound
  rw [streams] at isFound
  change (if other = id then some stream else conn.streams other) = some found at isFound
  split at isFound
  · next same =>
      cases isFound
      exact isId.trans same.symm
  · exact named other found isFound

theorem setStream_other {other : Int64}
    (streams : conn'.streams = (conn.setStream id stream).streams) (differ : other ≠ id) :
    conn'.streams other = conn.streams other := by
  rw [streams]
  exact if_neg differ

theorem setStream_self (streams : conn'.streams = (conn.setStream id stream).streams) :
    conn'.streams id = some stream := by
  rw [streams]
  exact if_pos rfl

theorem Keeps.answered_append (keeps : Keeps conn) {sent : Http2Frame}
    (member : Event.sent sent ∈ conn.trace ++ more) (isHeaders : sent.type = Http2FrameType.HEADERS)
    (finishes : Event.sent sent ∈ more → ∃ event ∈ more, event.Finishes sent.streamId) :
    ¬ Live (conn.trace ++ more) sent.streamId := by
  rw [live_append]
  rintro ⟨live, liveMore⟩
  rcases List.mem_append.mp member with before | isMore
  · exact keeps.answered sent before isHeaders live
  · rcases finishes isMore with ⟨event, isEvent, isEnd⟩
    exact liveMore event isEvent isEnd

theorem Keeps.reset {reset : Http2Frame} (keeps : Keeps conn) (resets : reset.Resets frame.streamId)
    (isTrace : conn'.trace = conn.trace ++ [Event.received frame, Event.sent reset])
    (named : ∀ id stream, conn'.streams id = some stream → stream.id = id)
    (others : ∀ id, id ≠ frame.streamId → conn'.streams id = conn.streams id) : Keeps conn' := by
  constructor
  · exact named
  · intro id live
    rw [isTrace] at live ⊢
    rw [live_append] at live
    have differ : frame.streamId ≠ id := by
      rintro rfl
      exact live.2 (.sent reset) (List.mem_cons_of_mem _ List.mem_cons_self) resets
    rw [others id differ.symm]
    exact (keeps.collects id live.1).mono (received_of_ne (Or.inr differ) rfl) rfl
  · intro sent member isHeaders
    rw [isTrace] at member ⊢
    apply keeps.answered_append member isHeaders
    intro isSent
    rcases List.mem_cons.mp isSent with isFrame | isReset
    · cases isFrame
    · cases List.mem_singleton.mp isReset
      rw [resets.1] at isHeaders
      exact absurd isHeaders (by decide)

theorem received_ran (streamId : Int64) (block : List Int64) (headers : List HpackHeader)
    (request : HttpRequest) (answer : List Http2Frame) (id : Int64) :
    received (.ran streamId block headers request :: answer.map .sent) id = [] :=
  received_sent answer id

theorem Keeps.handled {conn conn' : Http2Conn App} {frame : Http2Frame} (keeps : Keeps conn)
    (handled : Handled conn frame conn') : Keeps conn' := by
  cases handled with
  | passed answer noStream notHeaders notData harmless isTrace streams isTable =>
      constructor
      · intro id stream isStream
        rcases (streams id).id_eq isStream with ⟨before, isBefore, same⟩
        exact same ▸ keeps.named id before isBefore
      · intro id live
        rw [isTrace] at live ⊢
        apply (keeps.collects id (live_append.mp live).1).mono _ (streams id)
        exact received_of_ne (Or.inl notData) (received_sent answer id)
      · intro sent member isHeaders
        rw [isTrace] at member ⊢
        apply keeps.answered_append member isHeaders
        intro isSent
        rcases List.mem_cons.mp isSent with isFrame | isAnswer
        · cases isFrame
        · rcases List.mem_map.mp isAnswer with ⟨sent', isSent', same⟩
          cases same
          exact absurd isHeaders (harmless sent isSent').1
  | refused reset isData unknown resets isTrace streams isTable =>
      apply keeps.reset resets isTrace
      · rw [streams]
        exact keeps.named
      · intro id differ
        rw [streams]
  | aborted stream last reset isCollected long same resets isTrace streams isTable =>
      have isId := (gathers_of_collected isCollected).id_eq keeps.named
      apply keeps.reset resets isTrace
      · exact named_setStream keeps.named (same.1.trans isId) streams
      · exact fun id differ => setStream_other streams differ
  | kept stream last isCollected short goesOn same isTrace streams isTable =>
      have gathers := gathers_of_collected isCollected
      have isId := gathers.id_eq keeps.named
      constructor
      · refine named_setStream keeps.named ?_ streams
        rw [same]
        exact isId
      · intro id live
        rw [isTrace] at live ⊢
        have collects := keeps.collects id (live_append.mp live).1
        by_cases isFrame : id = frame.streamId
        · subst isFrame
          have known := collects.gathers gathers
          rw [setStream_self streams, same]
          exact known
        · rw [setStream_other streams isFrame]
          exact collects.mono (received_of_ne (Or.inr fun same => isFrame same.symm) rfl) rfl
      · intro sent member isHeaders
        rw [isTrace] at member ⊢
        apply keeps.answered_append member isHeaders
        intro isSent
        cases List.mem_singleton.mp isSent
  | ran stream answer isCollected short isLast isAnswer isTrace streams isTable =>
      have isId := (gathers_of_collected isCollected).id_eq keeps.named
      constructor
      · refine named_setStream keeps.named ?_ streams
        rfl
      · intro id live
        rw [isTrace] at live ⊢
        rw [live_append] at live
        have differ : stream.id ≠ id :=
          live.2 _ (List.mem_cons_of_mem _ List.mem_cons_self)
        rw [setStream_other streams differ.symm]
        rw [isId] at differ
        exact (keeps.collects id live.1).mono
          (received_of_ne (Or.inr differ) (received_ran _ _ _ _ answer id)) rfl
      · intro sent member isHeaders
        rw [isTrace] at member ⊢
        apply keeps.answered_append member isHeaders
        intro isSent
        refine ⟨_, List.mem_cons_of_mem _ List.mem_cons_self, ?_⟩
        rcases isAnswer with ⟨first, rest, rfl, -, isStream, isData⟩
        have isSent' : Event.sent sent ∈ (first :: rest).map Event.sent :=
          ((List.mem_cons.mp isSent).resolve_left nofun |> List.mem_cons.mp).resolve_left nofun
        rcases List.mem_map.mp isSent' with ⟨sent', member', same⟩
        cases same
        rcases List.mem_cons.mp member' with rfl | isRest
        · exact isStream.symm
        · rw [isData sent isRest] at isHeaders
          exact absurd isHeaders (by decide)

theorem Serves.keeps {server : Http2Server App} {app : App}
    {meets : Http2Conn App → Http2Frame → Prop} (serves : Serves server app meets conn) :
    Keeps conn := by
  induction serves with
  | start =>
      constructor
      · exact nofun
      · exact fun id live => rfl
      · intro sent member isHeaders
        cases List.mem_singleton.mp member
        exact absurd isHeaders (by decide)
  | frame serves frame goesOn condition step ih => exact ih.handled (handleFrame_handled step)

theorem eachAfter_reset {reset : Http2Frame}
    (each : EachAfter RunsWell (trace ++ [Event.received frame])) (resets : reset.Resets streamId) :
    EachAfter RunsWell (trace ++ [Event.received frame, Event.sent reset]) := by
  rw [List.append_cons]
  refine eachAfter_concat.mpr ⟨each, fun isHeaders => ?_⟩
  rw [resets.1] at isHeaders
  exact absurd isHeaders (by decide)

theorem Gathers.live {conn : Http2Conn App} {frame : Http2Frame} {stream : Http2Stream}
    (gathers : Gathers conn frame stream) {streamId : Int64} (live : Live conn.trace streamId) :
    Live (conn.trace ++ [Event.received frame]) streamId := by
  refine live_append.mpr ⟨live, fun event member finishes => ?_⟩
  cases List.mem_singleton.mp member
  have isReset := finishes.1
  cases gathers with
  | headers before fragment isType isStream isFragment | continuation before isType known
  | data before bytes isType known isContent =>
      rw [isReset] at isType
      exact absurd isType (by decide)

theorem Gathers.ends (gathers : Gathers conn frame stream) (isLast : completes frame stream)
    (collects : Collects (conn.trace ++ [Event.received frame]) frame.streamId (some stream)) :
    HeadersEnded (conn.trace ++ [Event.received frame]) frame.streamId ∧
      StreamEnded (conn.trace ++ [Event.received frame]) frame.streamId := by
  have isNew : Event.received frame ∈ conn.trace ++ [Event.received frame] :=
    List.mem_append_right _ (List.mem_singleton_self _)
  have ofHeaders (notData : frame.type ≠ Http2FrameType.DATA)
      (isType : frame.type = Http2FrameType.HEADERS ∨ frame.type = Http2FrameType.CONTINUATION) :
      HeadersEnded (conn.trace ++ [Event.received frame]) frame.streamId ∧
        StreamEnded (conn.trace ++ [Event.received frame]) frame.streamId := by
    rw [completes, if_neg notData, Bool.and_eq_true] at isLast
    exact ⟨⟨frame, isNew, rfl, isType, isLast.1⟩, collects.2.1 isLast.2⟩
  cases gathers with
  | headers before fragment isHeaders isStream isFragment =>
      apply ofHeaders _ (Or.inl isHeaders)
      rw [isHeaders]
      decide
  | continuation before isContinuation known =>
      apply ofHeaders _ (Or.inr isContinuation)
      rw [isContinuation]
      decide
  | data before bytes isData known isContent =>
      rw [completes, if_pos isData, Bool.and_eq_true, Bool.not_eq_true'] at isLast
      exact ⟨collects.2.2 isLast.2, ⟨frame, isNew, rfl, Or.inr isData, isLast.1⟩⟩

theorem Handled.runsWell (keeps : Keeps conn) (handled : Handled conn frame conn')
    (each : EachAfter RunsWell conn.trace) (condition : CompletesLive conn frame) :
    EachAfter RunsWell conn'.trace := by
  have eachFrame : EachAfter RunsWell (conn.trace ++ [Event.received frame]) :=
    eachAfter_concat.mpr ⟨each, trivial⟩
  cases handled with
  | passed answer noStream notHeaders notData harmless isTrace streams isTable =>
      rw [isTrace, List.append_cons]
      apply eachAfter_append eachFrame
      intro event member before
      rcases List.mem_map.mp member with ⟨sent, isSent, rfl⟩
      exact fun isHeaders => absurd isHeaders (harmless sent isSent).1
  | refused reset isData unknown resets isTrace streams isTable
  | aborted stream last reset isCollected long same resets isTrace streams isTable =>
      rw [isTrace]
      exact eachAfter_reset eachFrame resets
  | kept stream last isCollected short goesOn same isTrace streams isTable =>
      rw [isTrace]
      exact eachFrame
  | ran stream answer isCollected short isLast isAnswer isTrace streams isTable =>
      rcases condition stream isCollected short isLast with ⟨live, noZero⟩
      have gathers := gathers_of_collected isCollected
      have isId := gathers.id_eq keeps.named
      have collects := (keeps.collects _ live).gathers gathers
      have live' := gathers.live live
      rcases isAnswer with ⟨first, rest, rfl, isHeaders, isStream, isData⟩
      rw [isTrace, List.append_cons, List.append_cons, List.map_cons, List.append_cons]
      refine eachAfter_append (eachAfter_concat.mpr ⟨eachAfter_concat.mpr ⟨eachFrame, ?_⟩, ?_⟩) ?_
      · rw [isId]
        have ends := gathers.ends isLast collects
        refine ⟨live', ends.1, ends.2, ?_⟩
        change cString (stream.body.map lowByte) = _
        rw [cString_eq_iff.mpr noZero, collects.1]
      · intro isHeaders' sent member isHeaders'' same
        have isBefore : Event.sent sent ∈ conn.trace := by
          simpa using member
        apply keeps.answered sent isBefore isHeaders''
        rw [same, isStream, isId]
        exact live
      · intro event member before
        rcases List.mem_map.mp member with ⟨sent, isSent, rfl⟩
        intro isHeaders'
        rw [isData sent isSent] at isHeaders'
        exact absurd isHeaders' (by decide)

theorem Handled.trace_append (handled : Handled conn frame conn') :
    ∃ more, conn'.trace = conn.trace ++ more := by
  cases handled with
  | passed answer noStream notHeaders notData harmless isTrace
  | refused reset isData unknown resets isTrace
  | aborted stream last reset isCollected long same resets isTrace
  | kept stream last isCollected short goesOn same isTrace
  | ran stream answer isCollected short isLast isAnswer isTrace => exact ⟨_, isTrace⟩

theorem Handled.runs (handled : Handled conn frame conn')
    (isCollected : collected conn frame = some stream) (short : overlong frame stream = false)
    (isLast : completes frame stream) :
    conn'.streams = (conn.setStream stream.id { stream with state := .closed }).streams ∧
      ∃ headers after, conn'.trace = conn.trace ++ [Event.received frame] ++
        .ran stream.id stream.headerBlock headers (requestOf headers stream.body) :: after := by
  cases handled with
  | passed answer noStream notHeaders notData harmless isTrace streams isTable =>
      rw [isCollected] at noStream
      cases noStream
  | refused reset isData unknown resets isTrace streams isTable =>
      cases gathers_of_collected isCollected with
      | headers before fragment isHeaders isStream isFragment =>
          rw [isData] at isHeaders
          exact absurd isHeaders (by decide)
      | continuation before isContinuation known =>
          rw [isData] at isContinuation
          exact absurd isContinuation (by decide)
      | data before bytes isData' known isContent =>
          rw [unknown] at known
          cases known
  | aborted other last reset isCollected' long same resets isTrace streams isTable =>
      rw [isCollected] at isCollected'
      cases isCollected'
      rw [short] at long
      cases long
  | kept other last isCollected' short' goesOn same isTrace streams isTable =>
      rw [isCollected] at isCollected'
      cases isCollected'
      rw [isLast] at goesOn
      cases goesOn
  | ran other answer isCollected' short' isLast' isAnswer isTrace streams isTable =>
      rw [isCollected] at isCollected'
      cases isCollected'
      rw [List.append_cons] at isTrace
      exact ⟨streams, _, _, isTrace⟩

/-- A frame that does not meet the condition breaks the order of requests. -/
theorem Handled.completesLive (keeps : Keeps conn) (handled : Handled conn frame conn')
    (each : EachAfter RunsWell conn'.trace) : CompletesLive conn frame := by
  intro stream isCollected short isLast
  rcases handled.runs isCollected short isLast with ⟨-, headers, after, isTrace⟩
  have gathers := gathers_of_collected isCollected
  have runs := each _ _ _ isTrace
  rw [RunsWell, gathers.id_eq keeps.named] at runs
  rcases runs with ⟨live, -, -, isBody⟩
  have liveBefore := (live_append.mp live).1
  have collects := (keeps.collects _ liveBefore).gathers gathers
  refine ⟨liveBefore, ?_⟩
  rw [← collects.1] at isBody
  exact cString_eq_iff.mp isBody

/-- Requests run well in exactly the runs whose frames all meet the condition. -/
theorem runsWell_iff {server : Http2Server App} {app : App} {conn : Http2Conn App}
    (serves : Serves server app (fun _ _ => True) conn) :
    EachAfter RunsWell conn.trace ↔ Serves server app CompletesLive conn := by
  constructor
  · intro each
    induction serves with
    | start => exact .start
    | frame serves frame goesOn condition step ih =>
        have handled := handleFrame_handled step
        have condition' := handled.completesLive serves.keeps each
        refine .frame (ih ?_) frame goesOn condition' step
        rcases handled.trace_append with ⟨more, isTrace⟩
        rw [isTrace] at each
        exact each.of_append
  · intro served
    clear serves
    induction served with
    | start =>
        refine eachAfter_concat.mpr ⟨eachAfter_nil _, fun isHeaders => ?_⟩
        exact absurd isHeaders (by decide)
    | frame serves frame goesOn condition step ih =>
        exact (handleFrame_handled step).runsWell serves.keeps ih condition

/-- A server that counts the requests it has run. -/
def counter : Http2Server Nat where
  routes := [⟨literal "GET", literal "/", fun ctx count => some (ctx, count + 1)⟩]
  middleware := []
  keys _ := []

/-- A whole request in one frame. -/
def wholeRequest : Http2Frame :=
  Http2Frame.new Http2FrameType.HEADERS (Http2Flags.END_HEADERS ||| Http2Flags.END_STREAM) 1
    [130, 132]

theorem decode_wholeRequest : decode [130, 132] (HpackDynTable.new 4096) =
    ([⟨literal ":method", literal "GET"⟩, ⟨literal ":path", literal "/"⟩],
      HpackDynTable.new 4096) := by
  with_unfolding_all decide

theorem dispatchStream_returns {server : Http2Server App} {stream : Http2Stream}
    (returns : (serve server ⟨requestOf (decode stream.headerBlock conn.recvDynTable).1 stream.body,
      HttpResponse.new⟩ conn.app).isSome) : ∃ conn', dispatchStream server conn stream = some conn' := by
  rcases Option.isSome_iff_exists.mp returns with ⟨answer, isAnswer⟩
  exact ⟨_, Option.bind_eq_some_iff.mpr ⟨answer, isAnswer, rfl⟩⟩

theorem wholeRequest_returns {server : Http2Server App} {app : App}
    (returns : (serve server ⟨requestOf [⟨literal ":method", literal "GET"⟩,
      ⟨literal ":path", literal "/"⟩] [], HttpResponse.new⟩ app).isSome) :
    ∃ conn, handleFrame server (Http2Conn.new app).sendServerSettings wholeRequest = some conn := by
  change ∃ conn, dispatchStream server _ ⟨1, .halfClosedRemote, [130, 132], [], true, false⟩ = some conn
  apply dispatchStream_returns
  change (serve server ⟨requestOf (decode [130, 132] (HpackDynTable.new 4096)).1 [], _⟩ app).isSome
  rw [decode_wholeRequest]
  exact returns

theorem wholeRequest_runsWell : ∃ conn,
    handleFrame counter (Http2Conn.new 0).sendServerSettings wholeRequest = some conn ∧
      (EachAfter RunsWell conn.trace ↔ Serves counter 0 CompletesLive conn) := by
  rcases @wholeRequest_returns _ counter 0 rfl with ⟨conn, step⟩
  exact ⟨conn, step, runsWell_iff (.frame .start wholeRequest rfl trivial step)⟩

/-- The same headers once more run the handler once more. -/
theorem wholeRequest_runsTwice : ∃ conn, Serves counter 0 (fun _ _ => True) conn ∧ conn.app = 2 ∧
    ¬ EachAfter RunsWell conn.trace := by
  have isCount : (handleConnection counter (Http2Conn.new 0).sendServerSettings
      [wholeRequest, wholeRequest]).map (·.app) = some 2 := by with_unfolding_all decide
  rcases Option.map_eq_some_iff.mp isCount with ⟨conn, isRun, isTwo⟩
  rcases handleConnection_cons rfl isRun with ⟨once, first, isRest⟩
  rcases handleConnection_cons rfl isRest with ⟨twice, second, isEnd⟩
  cases isEnd
  refine ⟨conn, .frame (.frame .start wholeRequest rfl trivial first) wholeRequest rfl trivial second,
    isTwo, fun each => ?_⟩
  rcases (handleFrame_handled first).runs rfl rfl rfl with ⟨streams, headers, after, isTrace⟩
  have known : once.streams wholeRequest.streamId = some ⟨1, .closed, [130, 132], [], true, false⟩ :=
    setStream_self streams
  have isCollected : collected once wholeRequest =
      some ⟨1, .closed, [130, 132, 130, 132], [], true, false⟩ := by
    rw [collected, known]
    rfl
  have keeps := (Serves.frame .start wholeRequest rfl trivial first :
    Serves counter 0 (fun _ _ => True) once).keeps
  have live := ((handleFrame_handled second).completesLive keeps each _ isCollected rfl rfl).1
  rw [isTrace, live_append] at live
  exact live.2 _ List.mem_cons_self rfl

end Tinox.Net
