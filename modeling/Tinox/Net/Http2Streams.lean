import Tinox.Net.Http2Server

/-!
# What a frame does to its stream

A frame with content for a stream is collected.  Then the stream is aborted, kept, or its
request is run; no other frame does more than answer.
-/

namespace Tinox.Net

variable {App : Type}

open Tinox.Runtime

/-- The stream of a frame with the content of the frame. -/
def collected (conn : Http2Conn App) (frame : Http2Frame) : Option Http2Stream :=
  let known := conn.streams frame.streamId
  if frame.type = Http2FrameType.HEADERS then do
    let fragment ← headerFragment frame
    let stream := known.getD (Http2Stream.new frame.streamId)
    some { stream with
      headerBlock := stream.headerBlock ++ fragment
      endStream := if frame.has Http2Flags.END_STREAM then true else stream.endStream
      expectingContinuation := !frame.has Http2Flags.END_HEADERS }
  else if frame.type = Http2FrameType.CONTINUATION then do
    let stream ← known
    some { stream with
      headerBlock := stream.headerBlock ++ frame.payload
      expectingContinuation := stream.expectingContinuation && !frame.has Http2Flags.END_HEADERS }
  else if frame.type = Http2FrameType.DATA then do
    let stream ← known
    let data ← dataContent frame
    some { stream with
      body := stream.body ++ data
      endStream := if frame.has Http2Flags.END_STREAM then true else stream.endStream }
  else none

/-- The ways in which the content of a frame is collected. -/
inductive Gathers (conn : Http2Conn App) (frame : Http2Frame) : Http2Stream → Prop where
  | headers (stream : Http2Stream) (fragment : List Int64)
      (isHeaders : frame.type = Http2FrameType.HEADERS)
      (isStream : (conn.streams frame.streamId).getD (Http2Stream.new frame.streamId) = stream)
      (isFragment : headerFragment frame = some fragment) :
      Gathers conn frame { stream with
        headerBlock := stream.headerBlock ++ fragment
        endStream := if frame.has Http2Flags.END_STREAM then true else stream.endStream
        expectingContinuation := !frame.has Http2Flags.END_HEADERS }
  | continuation (stream : Http2Stream) (isContinuation : frame.type = Http2FrameType.CONTINUATION)
      (known : conn.streams frame.streamId = some stream) :
      Gathers conn frame { stream with
        headerBlock := stream.headerBlock ++ frame.payload
        expectingContinuation := stream.expectingContinuation && !frame.has Http2Flags.END_HEADERS }
  | data (stream : Http2Stream) (bytes : List Int64) (isData : frame.type = Http2FrameType.DATA)
      (known : conn.streams frame.streamId = some stream) (isContent : dataContent frame = some bytes) :
      Gathers conn frame { stream with
        body := stream.body ++ bytes
        endStream := if frame.has Http2Flags.END_STREAM then true else stream.endStream }

variable {conn : Http2Conn App} {frame : Http2Frame} {stream : Http2Stream}

theorem gathers_of_collected (isCollected : collected conn frame = some stream) :
    Gathers conn frame stream := by
  rw [collected] at isCollected
  dsimp only at isCollected
  split at isCollected
  · next isHeaders =>
      rcases Option.bind_eq_some_iff.mp isCollected with ⟨fragment, isFragment, isStream⟩
      cases isStream
      exact .headers _ fragment isHeaders rfl isFragment
  · split at isCollected
    · next isContinuation =>
        rcases Option.bind_eq_some_iff.mp isCollected with ⟨before, known, isStream⟩
        cases isStream
        exact .continuation before isContinuation known
    · split at isCollected
      · next isData =>
          rcases Option.bind_eq_some_iff.mp isCollected with ⟨before, known, hasData⟩
          rcases Option.bind_eq_some_iff.mp hasData with ⟨bytes, isContent, isStream⟩
          cases isStream
          exact .data before bytes isData known isContent
      · cases isCollected

/-- What has been collected is over its cap. -/
def overlong (frame : Http2Frame) (stream : Http2Stream) : Bool :=
  if frame.type = Http2FrameType.DATA then maxBody < stream.body.length
  else maxHeaderBlock < stream.headerBlock.length

/-- A frame that makes the request of its stream run. -/
def completes (frame : Http2Frame) (stream : Http2Stream) : Bool :=
  if frame.type = Http2FrameType.DATA then
    frame.has Http2Flags.END_STREAM && !stream.expectingContinuation
  else frame.has Http2Flags.END_HEADERS && stream.endStream

/-- The frames of a response: one with headers, then data. -/
def IsAnswer (streamId : Int64) (answer : List Http2Frame) : Prop :=
  ∃ first rest, answer = first :: rest ∧ first.type = Http2FrameType.HEADERS ∧
    first.streamId = streamId ∧ ∀ frame ∈ rest, frame.type = Http2FrameType.DATA

/-- A frame that resets a stream. -/
def Http2Frame.Resets (frame : Http2Frame) (streamId : Int64) : Prop :=
  frame.type = Http2FrameType.RST_STREAM ∧ frame.streamId = streamId

/-- The same stream, or none, whatever its state. -/
def SameStream (stream stream' : Option Http2Stream) : Prop :=
  stream'.map (fun s => { s with state := .opened }) = stream.map fun s => { s with state := .opened }

/-- The decoder's table after a frame that runs no request. -/
def tableAfter (conn : Http2Conn App) (frame : Http2Frame) : HpackDynTable :=
  if frame.type = Http2FrameType.SETTINGS then
    (processSettings (conn.see (.received frame)) frame).recvDynTable
  else conn.recvDynTable

/-- The ways in which a frame is handled. -/
inductive Handled (conn : Http2Conn App) (frame : Http2Frame) (conn' : Http2Conn App) : Prop where
  | passed (answer : List Http2Frame) (noStream : collected conn frame = none)
      (notHeaders : frame.type ≠ Http2FrameType.HEADERS)
      (notData : frame.type ≠ Http2FrameType.DATA)
      (harmless : ∀ sent ∈ answer, sent.type ≠ Http2FrameType.HEADERS ∧
        sent.type ≠ Http2FrameType.RST_STREAM)
      (isTrace : conn'.trace = conn.trace ++ Event.received frame :: answer.map .sent)
      (streams : ∀ id, SameStream (conn.streams id) (conn'.streams id))
      (isTable : conn'.recvDynTable = tableAfter conn frame)
  | refused (reset : Http2Frame) (isData : frame.type = Http2FrameType.DATA)
      (unknown : conn.streams frame.streamId = none) (resets : reset.Resets frame.streamId)
      (isTrace : conn'.trace = conn.trace ++ [Event.received frame, Event.sent reset])
      (streams : conn'.streams = conn.streams)
      (isTable : conn'.recvDynTable = conn.recvDynTable)
  | aborted (stream last : Http2Stream) (reset : Http2Frame)
      (isCollected : collected conn frame = some stream) (long : overlong frame stream)
      (same : last.id = stream.id ∧ last.headerBlock = stream.headerBlock)
      (resets : reset.Resets frame.streamId)
      (isTrace : conn'.trace = conn.trace ++ [Event.received frame, Event.sent reset])
      (streams : conn'.streams = (conn.setStream frame.streamId last).streams)
      (isTable : conn'.recvDynTable = conn.recvDynTable)
  | kept (stream last : Http2Stream) (isCollected : collected conn frame = some stream)
      (short : overlong frame stream = false) (goesOn : completes frame stream = false)
      (same : last = { stream with state := last.state })
      (isTrace : conn'.trace = conn.trace ++ [Event.received frame])
      (streams : conn'.streams = (conn.setStream frame.streamId last).streams)
      (isTable : conn'.recvDynTable = conn.recvDynTable)
  | ran (stream : Http2Stream) (answer : List Http2Frame)
      (isCollected : collected conn frame = some stream)
      (short : overlong frame stream = false) (isLast : completes frame stream)
      (isAnswer : IsAnswer stream.id answer)
      (isTrace : conn'.trace = conn.trace ++ Event.received frame ::
        Event.ran stream.id stream.headerBlock (decode stream.headerBlock conn.recvDynTable).1
          (requestOf (decode stream.headerBlock conn.recvDynTable).1 stream.body) ::
        answer.map .sent)
      (streams : conn'.streams = (conn.setStream stream.id { stream with state := .closed }).streams)
      (isTable : conn'.recvDynTable = (decode stream.headerBlock conn.recvDynTable).2)

variable {server : Http2Server App} {conn' : Http2Conn App}

theorem sendResponse_spec (server : Http2Server App) (conn : Http2Conn App) (streamId : Int64)
    (response : HttpResponse) : ∃ answer, IsAnswer streamId answer ∧
      (sendResponse server conn streamId response).trace = conn.trace ++ answer.map .sent ∧
      (sendResponse server conn streamId response).streams = conn.streams ∧
      (sendResponse server conn streamId response).recvDynTable = conn.recvDynTable := by
  rw [sendResponse]
  dsimp only
  split
  · exact ⟨[_], ⟨_, [], rfl, rfl, rfl, nofun⟩, rfl, rfl, rfl⟩
  · refine ⟨[_, _], ⟨_, [_], rfl, rfl, rfl, ?_⟩, List.append_assoc _ _ _, rfl, rfl⟩
    intro frame member
    rw [List.mem_singleton.mp member]
    rfl

theorem dispatchStream_spec (step : dispatchStream server conn stream = some conn') :
    ∃ answer, IsAnswer stream.id answer ∧
      conn'.trace = conn.trace ++
        Event.ran stream.id stream.headerBlock (decode stream.headerBlock conn.recvDynTable).1
          (requestOf (decode stream.headerBlock conn.recvDynTable).1 stream.body) ::
        answer.map .sent ∧
      conn'.streams = (conn.setStream stream.id { stream with state := .closed }).streams ∧
      conn'.recvDynTable = (decode stream.headerBlock conn.recvDynTable).2 := by
  rw [dispatchStream] at step
  rcases Option.bind_eq_some_iff.mp step with ⟨⟨ctx, app⟩, -, isResult⟩
  cases isResult
  rcases sendResponse_spec server _ stream.id ctx.response with
    ⟨answer, isAnswer, isTrace, streams, isTable⟩
  refine ⟨answer, isAnswer, isTrace.trans (List.append_assoc _ _ _), ?_, isTable⟩
  · funext id
    exact congrArg (fun streams => if id = stream.id then _ else streams id) streams

/-- A connection that has only seen a frame. -/
structure Sees (conn : Http2Conn App) (frame : Http2Frame) (conn' : Http2Conn App) : Prop where
  trace : conn'.trace = conn.trace ++ [Event.received frame]
  streams : conn'.streams = conn.streams
  table : conn'.recvDynTable = conn.recvDynTable

theorem setStream_streams {conn conn' : Http2Conn App} (same : conn'.streams = conn.streams)
    (id : Int64) (stream : Http2Stream) :
    (conn'.setStream id stream).streams = (conn.setStream id stream).streams := by
  funext other
  exact congrArg (fun streams => if other = id then some stream else streams other) same

theorem Sees.aborted {last : Http2Stream} (sees : Sees conn frame conn')
    (isCollected : collected conn frame = some stream) (long : overlong frame stream)
    (same : last.id = stream.id ∧ last.headerBlock = stream.headerBlock) (code : Int64) :
    Handled conn frame ((conn'.sendRstStream frame.streamId code).setStream frame.streamId last) := by
  apply Handled.aborted stream last (Http2Frame.new Http2FrameType.RST_STREAM 0 frame.streamId
    (Http2Conn.bigEndian 255 code)) isCollected long same ⟨rfl, rfl⟩ _
    (@setStream_streams _ conn (conn'.sendRstStream frame.streamId code) sees.streams _ _) sees.table
  change conn'.trace ++ [_] = _
  rw [sees.trace, List.append_assoc]
  rfl

theorem Sees.kept {last : Http2Stream} (sees : Sees conn frame conn')
    (isCollected : collected conn frame = some stream) (short : overlong frame stream = false)
    (goesOn : completes frame stream = false) (same : last = { stream with state := last.state }) :
    Handled conn frame (conn'.setStream frame.streamId last) :=
  .kept stream last isCollected short goesOn same sees.trace
    (setStream_streams sees.streams _ _) sees.table

theorem Sees.ran {conn'' : Http2Conn App} (sees : Sees conn frame conn')
    (isCollected : collected conn frame = some stream) (short : overlong frame stream = false)
    (isLast : completes frame stream) {state : StreamState}
    (step : dispatchStream server conn' { stream with state := state } = some conn'') :
    Handled conn frame conn'' := by
  rcases dispatchStream_spec step with ⟨answer, isAnswer, isTrace, streams, isTable⟩
  rw [sees.table] at isTrace isTable
  refine .ran stream answer isCollected short isLast isAnswer ?_ ?_ isTable
  · rw [isTrace, sees.trace, List.append_assoc]
    rfl
  · exact streams.trans (setStream_streams sees.streams _ _)

/-- A connection that has seen a frame, with the last stream so far. -/
def Http2Conn.seen (conn : Http2Conn App) (frame : Http2Frame) (lastStreamId : Int64) :
    Http2Conn App :=
  { conn.see (.received frame) with lastStreamId := lastStreamId }

theorem sees_seen (conn : Http2Conn App) (frame : Http2Frame) (lastStreamId : Int64) :
    Sees conn frame (conn.seen frame lastStreamId) :=
  ⟨rfl, rfl, rfl⟩

/-- What a frame that may bring content makes of its connection. -/
inductive Outcome (server : Http2Server App) (conn : Http2Conn App) (frame : Http2Frame) :
    Http2Conn App → Prop where
  | ignored (isContinuation : frame.type = Http2FrameType.CONTINUATION)
      (noStream : collected conn frame = none) :
      Outcome server conn frame (conn.see (.received frame))
  | refused (isData : frame.type = Http2FrameType.DATA)
      (unknown : conn.streams frame.streamId = none) :
      Outcome server conn frame
        ((conn.see (.received frame)).sendRstStream frame.streamId Http2Error.STREAM_CLOSED)
  | aborted (lastStreamId : Int64) (stream last : Http2Stream)
      (isCollected : collected conn frame = some stream) (long : overlong frame stream)
      (same : last.id = stream.id ∧ last.headerBlock = stream.headerBlock) :
      Outcome server conn frame (((conn.seen frame lastStreamId).sendRstStream frame.streamId
        Http2Error.FRAME_SIZE_ERROR).setStream frame.streamId last)
  | kept (lastStreamId : Int64) (stream last : Http2Stream)
      (isCollected : collected conn frame = some stream) (short : overlong frame stream = false)
      (goesOn : completes frame stream = false) (same : last = { stream with state := last.state }) :
      Outcome server conn frame ((conn.seen frame lastStreamId).setStream frame.streamId last)
  | ran {conn' : Http2Conn App} (lastStreamId : Int64) (stream : Http2Stream) (state : StreamState)
      (isCollected : collected conn frame = some stream) (short : overlong frame stream = false)
      (isLast : completes frame stream)
      (step : dispatchStream server (conn.seen frame lastStreamId) { stream with state := state } =
        some conn') : Outcome server conn frame conn'

theorem Outcome.handled (outcome : Outcome server conn frame conn') : Handled conn frame conn' := by
  cases outcome with
  | ignored isContinuation noStream =>
      have notSettings : frame.type ≠ Http2FrameType.SETTINGS := by
        rw [isContinuation]
        decide
      refine .passed [] noStream ?_ ?_ (List.forall_mem_nil _) rfl (fun _ => rfl)
        (if_neg notSettings).symm
      all_goals
        rw [isContinuation]
        decide
  | refused isData unknown =>
      refine .refused (Http2Frame.new Http2FrameType.RST_STREAM 0 frame.streamId
        (Http2Conn.bigEndian 255 Http2Error.STREAM_CLOSED)) isData unknown ⟨rfl, rfl⟩ ?_ rfl rfl
      exact List.append_assoc _ _ _
  | aborted lastStreamId stream last isCollected long same =>
      exact (sees_seen conn frame lastStreamId).aborted isCollected long same _
  | kept lastStreamId stream last isCollected short goesOn same =>
      exact (sees_seen conn frame lastStreamId).kept isCollected short goesOn same
  | ran lastStreamId stream state isCollected short isLast step =>
      exact (sees_seen conn frame lastStreamId).ran isCollected short isLast step

theorem overlong_of_block {block : List Int64} (notData : frame.type ≠ Http2FrameType.DATA)
    (short : ¬ maxHeaderBlock < block.length) (same : stream.headerBlock = block) :
    overlong frame stream = false := by
  rw [overlong, if_neg notData, same]
  exact decide_eq_false short

theorem completes_of_block (notData : frame.type ≠ Http2FrameType.DATA) (stream : Http2Stream) :
    completes frame stream = (frame.has Http2Flags.END_HEADERS && stream.endStream) :=
  if_neg notData

theorem processHeaders_outcome (isHeaders : frame.type = Http2FrameType.HEADERS)
    (step : processHeaders server (conn.see (.received frame)) frame = some conn') :
    Outcome server conn frame conn' := by
  rw [processHeaders] at step
  rcases Option.bind_eq_some_iff.mp step with ⟨fragment, isFragment, isResult⟩
  have notData : frame.type ≠ Http2FrameType.DATA := by
    rw [isHeaders]
    decide
  have isNoted : (conn.see (.received frame)).note frame.streamId =
      conn.seen frame ((conn.see (.received frame)).note frame.streamId).lastStreamId := rfl
  generalize ((conn.see (.received frame)).note frame.streamId).lastStreamId = noted at isNoted
  rw [isNoted] at isResult
  dsimp only [Http2Conn.see] at isResult
  generalize isStream : (conn.streams frame.streamId).getD (Http2Stream.new frame.streamId) =
    stream at isResult
  have isCollected : collected conn frame = some { stream with
      headerBlock := stream.headerBlock ++ fragment
      endStream := if frame.has Http2Flags.END_STREAM then true else stream.endStream
      expectingContinuation := !frame.has Http2Flags.END_HEADERS } := by
    rw [collected, if_pos isHeaders, isFragment, isStream]
    rfl
  by_cases long : maxHeaderBlock < (stream.headerBlock ++ fragment).length
  · rw [if_pos long] at isResult
    cases isResult
    refine .aborted noted _ _ isCollected ?_ ⟨?_, ?_⟩
    · exact (if_neg notData).trans (decide_eq_true long)
    · rfl
    · rfl
  · rw [if_neg long] at isResult
    have short {other : Http2Stream} := @overlong_of_block frame other _ notData long
    have isLast := completes_of_block notData
    by_cases endHeaders : frame.has Http2Flags.END_HEADERS
    · rw [if_pos endHeaders] at isResult
      rw [endHeaders] at isCollected
      by_cases endStream : (if frame.has Http2Flags.END_STREAM then true else stream.endStream) = true
      · rw [if_pos endStream] at isResult
        apply Outcome.ran noted _ _ isCollected (short rfl) _ isResult
        rw [isLast, endHeaders, endStream]
        rfl
      · rw [if_neg endStream] at isResult
        cases isResult
        apply Outcome.kept noted _ _ isCollected (short rfl) _ rfl
        rw [isLast, Bool.eq_false_of_not_eq_true endStream, Bool.and_false]
    · rw [if_neg endHeaders] at isResult
      rw [Bool.eq_false_of_not_eq_true endHeaders] at isCollected
      cases isResult
      apply Outcome.kept noted _ _ isCollected (short rfl) _ rfl
      rw [isLast, Bool.eq_false_of_not_eq_true endHeaders, Bool.false_and]

theorem processContinuation_outcome (isContinuation : frame.type = Http2FrameType.CONTINUATION)
    (step : processContinuation server (conn.see (.received frame)) frame = some conn') :
    Outcome server conn frame conn' := by
  have notHeaders : frame.type ≠ Http2FrameType.HEADERS := by
    rw [isContinuation]
    decide
  have notData : frame.type ≠ Http2FrameType.DATA := by
    rw [isContinuation]
    decide
  have isSame : (conn.see (.received frame)).streams = conn.streams := rfl
  rw [processContinuation, isSame] at step
  cases known : conn.streams frame.streamId with
  | none =>
      have isCollected : collected conn frame = none := by
        rw [collected, if_neg notHeaders, if_pos isContinuation, known]
        rfl
      rw [known] at step
      cases step
      exact .ignored isContinuation isCollected
  | some stream =>
      have isCollected : collected conn frame = some { stream with
          headerBlock := stream.headerBlock ++ frame.payload
          expectingContinuation :=
            stream.expectingContinuation && !frame.has Http2Flags.END_HEADERS } := by
        rw [collected, if_neg notHeaders, if_pos isContinuation, known]
        rfl
      rw [known] at step
      dsimp only at step
      by_cases long : maxHeaderBlock < (stream.headerBlock ++ frame.payload).length
      · rw [if_pos long] at step
        cases step
        refine .aborted conn.lastStreamId _ _ isCollected ?_ ⟨?_, ?_⟩
        · exact (if_neg notData).trans (decide_eq_true long)
        · rfl
        · rfl
      · rw [if_neg long] at step
        have short {other : Http2Stream} := @overlong_of_block frame other _ notData long
        have isLast := completes_of_block notData
        by_cases endHeaders : frame.has Http2Flags.END_HEADERS
        · rw [if_pos endHeaders] at step
          rw [endHeaders, Bool.not_true, Bool.and_false] at isCollected
          by_cases endStream : stream.endStream
          · rw [if_pos endStream] at step
            apply Outcome.ran conn.lastStreamId _ _ isCollected (short rfl) _ step
            rw [isLast, endHeaders, endStream]
            rfl
          · rw [if_neg endStream] at step
            cases step
            apply Outcome.kept conn.lastStreamId _ _ isCollected (short rfl) _ rfl
            rw [isLast, Bool.eq_false_of_not_eq_true endStream, Bool.and_false]
        · rw [if_neg endHeaders] at step
          rw [Bool.eq_false_of_not_eq_true endHeaders, Bool.not_false, Bool.and_true] at isCollected
          cases step
          apply Outcome.kept conn.lastStreamId _ _ isCollected (short rfl) _ rfl
          rw [isLast, Bool.eq_false_of_not_eq_true endHeaders, Bool.false_and]

theorem processData_outcome (isData : frame.type = Http2FrameType.DATA)
    (step : processData server (conn.see (.received frame)) frame = some conn') :
    Outcome server conn frame conn' := by
  have notHeaders : frame.type ≠ Http2FrameType.HEADERS := by
    rw [isData]
    decide
  have notContinuation : frame.type ≠ Http2FrameType.CONTINUATION := by
    rw [isData]
    decide
  have isSame : (conn.see (.received frame)).streams = conn.streams := rfl
  rw [processData, isSame] at step
  cases known : conn.streams frame.streamId with
  | none =>
      rw [known] at step
      cases step
      exact .refused isData known
  | some stream =>
      rw [known] at step
      rcases Option.bind_eq_some_iff.mp step with ⟨data, hasData, isResult⟩
      have isCollected : collected conn frame = some { stream with
          body := stream.body ++ data
          endStream := if frame.has Http2Flags.END_STREAM then true else stream.endStream } := by
        rw [collected, if_neg notHeaders, if_neg notContinuation, if_pos isData, known, hasData]
        rfl
      dsimp only at isResult
      have isLast (other : Http2Stream) : completes frame other =
          (frame.has Http2Flags.END_STREAM && !other.expectingContinuation) := if_pos isData
      by_cases long : maxBody < (stream.body ++ data).length
      · rw [if_pos long] at isResult
        cases isResult
        refine .aborted conn.lastStreamId _ _ isCollected ?_ ⟨?_, ?_⟩
        · exact (if_pos isData).trans (decide_eq_true long)
        · rfl
        · rfl
      · rw [if_neg long] at isResult
        have short {other : Http2Stream} (same : other.body = stream.body ++ data) :
            overlong frame other = false := by
          rw [overlong, if_pos isData, same]
          exact decide_eq_false long
        by_cases endStream : frame.has Http2Flags.END_STREAM
        · rw [if_pos endStream] at isResult
          rw [endStream] at isCollected
          by_cases expects : stream.expectingContinuation
          · rw [if_pos expects] at isResult
            cases isResult
            apply Outcome.kept conn.lastStreamId _ _ isCollected (short rfl) _ rfl
            rw [isLast, expects, Bool.not_true, Bool.and_false]
          · rw [if_neg expects] at isResult
            apply Outcome.ran conn.lastStreamId _ _ isCollected (short rfl) _ isResult
            rw [isLast, endStream, Bool.eq_false_of_not_eq_true expects]
            rfl
        · rw [if_neg endStream] at isResult
          rw [if_neg endStream] at isCollected
          cases isResult
          apply Outcome.kept conn.lastStreamId _ _ isCollected (short rfl) _ rfl
          rw [isLast, Bool.eq_false_of_not_eq_true endStream, Bool.false_and]

theorem applySettings_same (conn : Http2Conn App) (payload : List Int64) :
    (applySettings conn payload).trace = conn.trace ∧
      (applySettings conn payload).streams = conn.streams := by
  fun_induction applySettings conn payload with
  | case1 conn b₀ b₁ b₂ b₃ b₄ b₅ payload settingId settingVal first second third ih =>
      have onFirst : first.trace = conn.trace ∧ first.streams = conn.streams := by
        dsimp only [first]
        split <;> exact ⟨rfl, rfl⟩
      have onSecond : second.trace = first.trace ∧ second.streams = first.streams := by
        dsimp only [second]
        split <;> exact ⟨rfl, rfl⟩
      have onThird : third.trace = second.trace ∧ third.streams = second.streams := by
        dsimp only [third]
        split <;> exact ⟨rfl, rfl⟩
      constructor
      · rw [ih.1, onThird.1, onSecond.1, onFirst.1]
      · rw [ih.2, onThird.2, onSecond.2, onFirst.2]
  | case2 conn payload isEnd => exact ⟨rfl, rfl⟩

theorem processSettings_handled (isSettings : frame.type = Http2FrameType.SETTINGS) :
    Handled conn frame (processSettings (conn.see (.received frame)) frame) := by
  have noStream : collected conn frame = none := by
    rw [collected, isSettings]
    rfl
  have notHeaders : frame.type ≠ Http2FrameType.HEADERS := by
    rw [isSettings]
    decide
  have notData : frame.type ≠ Http2FrameType.DATA := by
    rw [isSettings]
    decide
  have isTable : (processSettings (conn.see (.received frame)) frame).recvDynTable =
      tableAfter conn frame := (if_pos isSettings).symm
  have same := applySettings_same (conn.see (.received frame)) frame.payload
  by_cases isAck : frame.has Http2Flags.ACK
  · rw [processSettings, if_pos isAck] at isTable ⊢
    exact .passed [] noStream notHeaders notData nofun rfl (fun _ => rfl) isTable
  · rw [processSettings, if_neg isAck] at isTable ⊢
    apply Handled.passed [Http2Frame.new Http2FrameType.SETTINGS Http2Flags.ACK 0 []] noStream
      notHeaders notData _ _ _ isTable
    · intro sent member
      rw [List.mem_singleton.mp member]
      exact ⟨by decide, by decide⟩
    · change (applySettings (conn.see (.received frame)) frame.payload).trace ++ [_] = _
      rw [same.1]
      exact List.append_assoc _ _ _
    · intro id
      change SameStream (conn.streams id)
        ((applySettings (conn.see (.received frame)) frame.payload).streams id)
      rw [same.2]
      rfl

theorem processReset_handled (isReset : frame.type = Http2FrameType.RST_STREAM) :
    Handled conn frame (processReset (conn.see (.received frame)) frame) := by
  have noStream : collected conn frame = none := by
    rw [collected, isReset]
    rfl
  have notHeaders : frame.type ≠ Http2FrameType.HEADERS := by
    rw [isReset]
    decide
  have notData : frame.type ≠ Http2FrameType.DATA := by
    rw [isReset]
    decide
  have notSettings : frame.type ≠ Http2FrameType.SETTINGS := by
    rw [isReset]
    decide
  have isSame : (conn.see (.received frame)).streams = conn.streams := rfl
  rw [processReset, isSame]
  cases known : conn.streams frame.streamId with
  | none =>
      exact .passed [] noStream notHeaders notData (List.forall_mem_nil _) rfl (fun _ => rfl)
        (if_neg notSettings).symm
  | some stream =>
      refine .passed [] noStream notHeaders notData (List.forall_mem_nil _) rfl ?_
        (if_neg notSettings).symm
      intro id
      change SameStream (conn.streams id) (if id = frame.streamId then _ else conn.streams id)
      split
      · next same =>
          rw [same, known]
          rfl
      · rfl

/-- The branches of the loop in `handleConnection`. -/
inductive Reaction (server : Http2Server App) (conn : Http2Conn App) (frame : Http2Frame) :
    Http2Conn App → Prop where
  | settings (isSettings : frame.type = Http2FrameType.SETTINGS) :
      Reaction server conn frame (processSettings (conn.see (.received frame)) frame)
  | content {conn' : Http2Conn App} (notSettings : frame.type ≠ Http2FrameType.SETTINGS)
      (outcome : Outcome server conn frame conn') : Reaction server conn frame conn'
  | ping (isPing : frame.type = Http2FrameType.PING) :
      Reaction server conn frame ((conn.see (.received frame)).sendPong frame.payload)
  | reset (isReset : frame.type = Http2FrameType.RST_STREAM) :
      Reaction server conn frame (processReset (conn.see (.received frame)) frame)
  | other (notSettings : frame.type ≠ Http2FrameType.SETTINGS)
      (notHeaders : frame.type ≠ Http2FrameType.HEADERS)
      (notContinuation : frame.type ≠ Http2FrameType.CONTINUATION)
      (notData : frame.type ≠ Http2FrameType.DATA) (notPing : frame.type ≠ Http2FrameType.PING) :
      Reaction server conn frame (conn.see (.received frame))

theorem handleFrame_reaction (step : handleFrame server conn frame = some conn') :
    Reaction server conn frame conn' := by
  rw [handleFrame] at step
  split at step
  · next isSettings =>
      cases step
      exact .settings isSettings
  · next notSettings =>
      split at step
      · next isHeaders => exact .content notSettings (processHeaders_outcome isHeaders step)
      · next notHeaders =>
          split at step
          · next isContinuation =>
              exact .content notSettings (processContinuation_outcome isContinuation step)
          · next notContinuation =>
              split at step
              · next isData => exact .content notSettings (processData_outcome isData step)
              · next notData =>
                  split at step
                  · next isPing =>
                      cases step
                      exact .ping isPing
                  · next notPing =>
                      split at step
                      · next isReset =>
                          cases step
                          exact .reset isReset
                      · cases step
                        exact .other notSettings notHeaders notContinuation notData notPing

theorem handleFrame_handled (step : handleFrame server conn frame = some conn') :
    Handled conn frame conn' := by
  cases handleFrame_reaction step with
  | settings isSettings => exact processSettings_handled isSettings
  | content notSettings outcome => exact outcome.handled
  | ping isPing =>
      refine .passed [Http2Frame.new Http2FrameType.PING Http2Flags.ACK 0 frame.payload]
        ?_ ?_ ?_ ?_ (List.append_assoc _ _ _) (fun _ => rfl) ?_
      · rw [collected, isPing]
        rfl
      · rw [isPing]
        decide
      · rw [isPing]
        decide
      · intro sent member
        rw [List.mem_singleton.mp member]
        exact ⟨(by decide : Http2FrameType.PING ≠ Http2FrameType.HEADERS),
          (by decide : Http2FrameType.PING ≠ Http2FrameType.RST_STREAM)⟩
      · rw [tableAfter, isPing]
        rfl
  | reset isReset => exact processReset_handled isReset
  | other notSettings notHeaders notContinuation notData notPing =>
      have noStream : collected conn frame = none := by
        rw [collected, if_neg notHeaders, if_neg notContinuation, if_neg notData]
      exact .passed [] noStream notHeaders notData nofun rfl (fun _ => rfl)
        (if_neg notSettings).symm

theorem handleConnection_cons {frames : List Http2Frame} (goesOn : frame.isLast = false)
    (isRun : handleConnection server conn (frame :: frames) = some conn') :
    ∃ between, handleFrame server conn frame = some between ∧
      handleConnection server between frames = some conn' := by
  rw [handleConnection, goesOn] at isRun
  exact Option.bind_eq_some_iff.mp isRun

end Tinox.Net
