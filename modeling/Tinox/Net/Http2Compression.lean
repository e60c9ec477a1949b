import Tinox.Net.Http2Requests

/-!
# Header compression over a connection

The decoder's table belongs to the connection, so header blocks have to be decoded in the
order in which they were completed.  The server decodes a block when its request runs.
-/

namespace Tinox.Net

open Tinox.Runtime

variable {App State : Type}

/-- The piece of a header block in a HEADERS frame, without padding and priority. -/
def fragment (frame : Http2Frame) : List Int64 :=
  (unpadded frame).drop (if frame.has Http2Flags.PRIORITY then 5 else 0)

/-- The header blocks that have been received: the complete ones in the order of their ends, and
the one that is under way, each with its stream. -/
structure Reading where
  blocks : List (Int64 × List Int64)
  current : Option (Int64 × List Int64)
  deriving DecidableEq

namespace Reading

/-- A block goes on, or is complete. -/
def take (reading : Reading) (frame : Http2Frame) (block : Int64 × List Int64) : Reading :=
  if frame.has Http2Flags.END_HEADERS then ⟨reading.blocks ++ [block], none⟩
  else ⟨reading.blocks, some block⟩

def read (reading : Reading) (frame : Http2Frame) : Reading :=
  if frame.type = Http2FrameType.HEADERS then
    reading.take frame (frame.streamId, fragment frame)
  else if frame.type = Http2FrameType.CONTINUATION then
    match reading.current with
    | some (id, block) => reading.take frame (id, block ++ frame.payload)
    | none => reading
  else reading

end Reading

/-- What has been read at the end of a trace. -/
def reading (trace : List Event) : Reading :=
  trace.foldl (fun soFar event =>
    match event with
    | .received frame => soFar.read frame
    | _ => soFar) ⟨[], none⟩

/-- The pieces of a header block stand one behind the other. -/
def Contiguous (conn : Http2Conn App) (frame : Http2Frame) : Prop :=
  match (reading conn.trace).current with
  | some (id, _) => frame.type = Http2FrameType.CONTINUATION ∧ frame.streamId = id
  | none => frame.type ≠ Http2FrameType.CONTINUATION

/-- The header blocks that have been decoded, in their order. -/
def decodedBlocks (trace : List Event) : List (Int64 × List Int64) :=
  trace.filterMap fun event =>
    match event with
    | .ran streamId block _ _ => some (streamId, block)
    | _ => none

/-- The headers of the requests that have run, in their order. -/
def dispatched (trace : List Event) : List (Int64 × List HpackHeader) :=
  trace.filterMap fun event =>
    match event with
    | .ran streamId _ headers _ => some (streamId, headers)
    | _ => none

/-- Blocks decoded one after the other. -/
def decodeAll (dynTable : HpackDynTable) :
    List (Int64 × List Int64) → List (Int64 × List HpackHeader) × HpackDynTable
  | [] => ([], dynTable)
  | (id, block) :: blocks =>
      let result := decode block dynTable
      let rest := decodeAll result.2 blocks
      ((id, result.1) :: rest.1, rest.2)

/-- Header lists encoded one after the other by a client. -/
def encodeAll (encode : State → List HpackHeader → List Int64 × State) (state : State) :
    List (Int64 × List HpackHeader) → List (Int64 × List Int64)
  | [] => []
  | (id, headers) :: lists =>
      let result := encode state headers
      (id, result.1) :: encodeAll encode result.2 lists

/-- A frame that keeps the decoder in step: HEADERS open their streams, requests run in the order
in which their header blocks were completed, and SETTINGS leave the decoder's table. -/
structure StaysInStep (conn : Http2Conn App) (frame : Http2Frame) : Prop where
  contiguous : Contiguous conn frame
  opens : frame.type = Http2FrameType.HEADERS → conn.streams frame.streamId = none
  inOrder : ∀ stream, collected conn frame = some stream → overlong frame stream = false →
    completes frame stream →
      (((reading conn.trace).read frame).blocks.drop (decodedBlocks conn.trace).length).head?.map
        Prod.fst = some frame.streamId
  sameTable : tableAfter conn frame = conn.recvDynTable

theorem decodeAll_append (dynTable : HpackDynTable) (blocks more : List (Int64 × List Int64)) :
    decodeAll dynTable (blocks ++ more) =
      ((decodeAll dynTable blocks).1 ++ (decodeAll (decodeAll dynTable blocks).2 more).1,
        (decodeAll (decodeAll dynTable blocks).2 more).2) := by
  induction blocks generalizing dynTable with
  | nil => rfl
  | cons block blocks ih =>
      rw [List.cons_append, decodeAll, ih]
      rfl

theorem reading_append (trace more : List Event) :
    reading (trace ++ more) = more.foldl (fun soFar event =>
      match event with
      | .received frame => soFar.read frame
      | _ => soFar) (reading trace) :=
  List.foldl_append

theorem reading_sent (trace : List Event) (frames : List Http2Frame) :
    reading (trace ++ frames.map .sent) = reading trace := by
  induction frames generalizing trace with
  | nil => rw [List.map_nil, List.append_nil]
  | cons frame frames ih =>
      rw [List.map_cons, List.append_cons, ih, reading_append]
      rfl

theorem decodedBlocks_append (trace more : List Event) :
    decodedBlocks (trace ++ more) = decodedBlocks trace ++ decodedBlocks more :=
  List.filterMap_append

theorem dispatched_append (trace more : List Event) :
    dispatched (trace ++ more) = dispatched trace ++ dispatched more :=
  List.filterMap_append

theorem ran_sent (frames : List Http2Frame) :
    decodedBlocks (frames.map .sent) = [] ∧ dispatched (frames.map .sent) = [] := by
  induction frames with
  | nil => exact ⟨rfl, rfl⟩
  | cons frame frames ih => exact ih

/-- The header block of a stream. -/
def blockOf (conn : Http2Conn App) (id : Int64) : Option (List Int64) :=
  (conn.streams id).map Http2Stream.headerBlock

/-- Every block that has been read is the one its stream holds. -/
structure Holds (soFar : Reading) (held : Int64 → Option (List Int64)) : Prop where
  complete : ∀ id block, (id, block) ∈ soFar.blocks → held id = some block
  current : ∀ id block, soFar.current = some (id, block) →
    held id = some block ∧ ∀ other, (id, other) ∉ soFar.blocks

theorem Holds.take {soFar : Reading} {held : Int64 → Option (List Int64)} (holds : Holds soFar held)
    {id : Int64} (fresh : ∀ other, (id, other) ∉ soFar.blocks) (frame : Http2Frame)
    (block : List Int64) :
    Holds (soFar.take frame (id, block)) fun other => if other = id then some block else held other := by
  have before (other : Int64) (known : List Int64) (member : (other, known) ∈ soFar.blocks) :
      (if other = id then some block else held other) = some known := by
    have differ : other ≠ id := by
      rintro rfl
      exact fresh known member
    rw [if_neg differ]
    exact holds.complete other known member
  rw [Reading.take]
  split
  · constructor
    · intro other known member
      rcases List.mem_append.mp member with old | new
      · exact before other known old
      · cases List.mem_singleton.mp new
        exact if_pos rfl
    · exact nofun
  · constructor
    · exact before
    · intro other known isCurrent
      cases isCurrent
      exact ⟨if_pos rfl, fresh⟩

theorem headerFragment_eq {frame : Http2Frame} {bytes : List Int64}
    (isFragment : headerFragment frame = some bytes) : bytes = fragment frame := by
  rcases Option.bind_eq_some_iff.mp isFragment with ⟨⟨padLength, payloadOffset⟩, isPadding, isContent⟩
  cases isContent
  rw [fragment, ← content_eq isPadding]
  split <;> rfl

theorem Holds.gathers {conn : Http2Conn App} {frame : Http2Frame} {stream : Http2Stream}
    (holds : Holds (reading conn.trace) (blockOf conn)) (inStep : StaysInStep conn frame)
    (gathers : Gathers conn frame stream) :
    Holds ((reading conn.trace).read frame) fun other =>
      if other = frame.streamId then some stream.headerBlock else blockOf conn other := by
  cases gathers with
  | headers before bytes isHeaders isStream isFragment =>
      have unknown := inStep.opens isHeaders
      have isNew : before.headerBlock ++ bytes = fragment frame := by
        rw [← isStream, unknown, headerFragment_eq isFragment]
        rfl
      rw [Reading.read, if_pos isHeaders]
      dsimp only
      rw [isNew]
      apply holds.take
      intro other member
      have known := holds.complete _ other member
      rw [blockOf, unknown] at known
      cases known
  | continuation before isContinuation known =>
      have notHeaders : frame.type ≠ Http2FrameType.HEADERS := by
        rw [isContinuation]
        decide
      have contiguous := inStep.contiguous
      rw [Contiguous] at contiguous
      rw [Reading.read, if_neg notHeaders, if_pos isContinuation]
      split at contiguous
      · next id block isCurrent =>
          rcases contiguous with ⟨-, rfl⟩
          have isHeld := holds.current _ _ isCurrent
          rw [blockOf, known] at isHeld
          cases isHeld.1
          exact holds.take isHeld.2 frame _
      · exact absurd isContinuation contiguous
  | data before bytes isData known isContent =>
      have notHeaders : frame.type ≠ Http2FrameType.HEADERS := by
        rw [isData]
        decide
      have notContinuation : frame.type ≠ Http2FrameType.CONTINUATION := by
        rw [isData]
        decide
      have sameHeld : (fun other => if other = frame.streamId then some before.headerBlock
          else blockOf conn other) = blockOf conn := by
        funext other
        split
        · next same =>
            rw [same, blockOf, known]
            rfl
        · rfl
      rw [Reading.read, if_neg notHeaders, if_neg notContinuation]
      dsimp only
      rw [sameHeld]
      exact holds

theorem StaysInStep.read_eq {conn : Http2Conn App} {frame : Http2Frame}
    (inStep : StaysInStep conn frame) (holds : Holds (reading conn.trace) (blockOf conn))
    (noStream : collected conn frame = none) (notHeaders : frame.type ≠ Http2FrameType.HEADERS) :
    (reading conn.trace).read frame = reading conn.trace := by
  rw [Reading.read, if_neg notHeaders]
  by_cases isContinuation : frame.type = Http2FrameType.CONTINUATION
  · have contiguous := inStep.contiguous
    rw [Contiguous] at contiguous
    split at contiguous
    · next id block isCurrent =>
        rcases contiguous with ⟨-, rfl⟩
        have isHeld := (holds.current _ _ isCurrent).1
        rcases Option.map_eq_some_iff.mp isHeld with ⟨stream, known, -⟩
        rw [collected, if_neg notHeaders, if_pos isContinuation, known] at noStream
        cases noStream
    · exact absurd isContinuation contiguous
  · rw [if_neg isContinuation]

theorem blockOf_setStream {conn conn' : Http2Conn App} {id : Int64} {stream : Http2Stream}
    (streams : conn'.streams = (conn.setStream id stream).streams) :
    blockOf conn' = fun other =>
      if other = id then some stream.headerBlock else blockOf conn other := by
  funext other
  rw [blockOf, streams]
  change (if other = id then some stream else conn.streams other).map _ = _
  split <;> rfl

/-- The decoder is in step: it has decoded the first blocks in their order, each once, and its
table comes from them alone. -/
structure InStep (conn : Http2Conn App) : Prop where
  inOrder : decodedBlocks conn.trace <+: (reading conn.trace).blocks
  decoded : decodeAll (HpackDynTable.new 4096) (decodedBlocks conn.trace) =
    (dispatched conn.trace, conn.recvDynTable)
  holds : Holds (reading conn.trace) (blockOf conn)

theorem blocks_read (soFar : Reading) (frame : Http2Frame) :
    soFar.blocks <+: (soFar.read frame).blocks := by
  have onTake (block : Int64 × List Int64) : soFar.blocks <+: (soFar.take frame block).blocks := by
    rw [Reading.take]
    split
    · exact List.prefix_append _ _
    · exact List.prefix_rfl
  rw [Reading.read]
  split
  · exact onTake _
  · split
    · split
      · exact onTake _
      · exact List.prefix_rfl
    · exact List.prefix_rfl

theorem InStep.quiet {conn conn' : Http2Conn App} {frame : Http2Frame} (inStep : InStep conn)
    (sends : List Http2Frame)
    (isTrace : conn'.trace = conn.trace ++ Event.received frame :: sends.map .sent)
    (isTable : conn'.recvDynTable = conn.recvDynTable)
    (holds : Holds ((reading conn.trace).read frame) (blockOf conn')) : InStep conn' := by
  have isReading : reading conn'.trace = (reading conn.trace).read frame := by
    rw [isTrace, List.append_cons, reading_sent, reading_append]
    rfl
  have sameBlocks : decodedBlocks conn'.trace = decodedBlocks conn.trace := by
    rw [isTrace, decodedBlocks_append]
    change _ ++ decodedBlocks (sends.map .sent) = _
    rw [(ran_sent sends).1, List.append_nil]
  have sameHeaders : dispatched conn'.trace = dispatched conn.trace := by
    rw [isTrace, dispatched_append]
    change _ ++ dispatched (sends.map .sent) = _
    rw [(ran_sent sends).2, List.append_nil]
  constructor
  · rw [sameBlocks, isReading]
    exact inStep.inOrder.trans (blocks_read _ frame)
  · rw [sameBlocks, sameHeaders, isTable]
    exact inStep.decoded
  · rw [isReading]
    exact holds

theorem next_decoded {decoded blocks : List (Int64 × List Int64)} {held : Int64 → Option (List Int64)}
    {id : Int64} {block : List Int64} (inOrder : decoded <+: blocks)
    (complete : ∀ id block, (id, block) ∈ blocks → held id = some block)
    (isHeld : held id = some block)
    (isNext : (blocks.drop decoded.length).head?.map Prod.fst = some id) :
    decoded ++ [(id, block)] <+: blocks := by
  rcases inOrder with ⟨rest, rfl⟩
  rw [List.drop_left] at isNext
  cases rest with
  | nil => cases isNext
  | cons next rest =>
      have known := complete next.1 next.2 (List.mem_append_right _ List.mem_cons_self)
      have sameId : next.1 = id := Option.some.inj isNext
      rw [sameId, isHeld] at known
      have isSame : next = (id, block) := Prod.ext sameId (Option.some.inj known).symm
      rw [isSame]
      exact ⟨rest, List.append_assoc _ _ _⟩

theorem InStep.handled {conn conn' : Http2Conn App} {frame : Http2Frame} (inStep : InStep conn)
    (keeps : Keeps conn) (stays : StaysInStep conn frame) (handled : Handled conn frame conn') :
    InStep conn' := by
  cases handled with
  | passed answer noStream notHeaders notData harmless isTrace streams isTable =>
      apply inStep.quiet answer isTrace (isTable.trans stays.sameTable)
      have sameHeld : blockOf conn' = blockOf conn := by
        funext id
        have same := congrArg (Option.map Http2Stream.headerBlock) (streams id)
        rw [Option.map_map, Option.map_map] at same
        exact same
      rw [stays.read_eq inStep.holds noStream notHeaders, sameHeld]
      exact inStep.holds
  | refused reset isData unknown resets isTrace streams isTable =>
      have notHeaders : frame.type ≠ Http2FrameType.HEADERS := by
        rw [isData]
        decide
      have noStream : collected conn frame = none := by
        rw [collected, unknown, isData]
        rfl
      apply inStep.quiet [reset] isTrace isTable
      have sameHeld : blockOf conn' = blockOf conn := by
        funext id
        rw [blockOf, streams]
        rfl
      rw [stays.read_eq inStep.holds noStream notHeaders, sameHeld]
      exact inStep.holds
  | aborted stream last reset isCollected long same resets isTrace streams isTable =>
      apply inStep.quiet [reset] isTrace isTable
      rw [blockOf_setStream streams, same.2]
      exact inStep.holds.gathers stays (gathers_of_collected isCollected)
  | kept stream last isCollected short goesOn same isTrace streams isTable =>
      have holds := inStep.holds.gathers stays (gathers_of_collected isCollected)
      apply inStep.quiet [] isTrace isTable
      rw [blockOf_setStream streams, same]
      exact holds
  | ran stream answer isCollected short isLast isAnswer isTrace streams isTable =>
      have gathers := gathers_of_collected isCollected
      have isId := gathers.id_eq keeps.named
      have holds := inStep.holds.gathers stays gathers
      have isNext := stays.inOrder stream isCollected short isLast
      rw [List.append_cons, List.append_cons] at isTrace
      have isReading : reading conn'.trace = (reading conn.trace).read frame := by
        rw [isTrace, reading_sent, reading_append, reading_append]
        rfl
      have isBlocks : decodedBlocks conn'.trace =
          decodedBlocks conn.trace ++ [(frame.streamId, stream.headerBlock)] := by
        rw [isTrace, decodedBlocks_append, (ran_sent answer).1, List.append_nil, decodedBlocks_append,
          decodedBlocks_append, isId]
        exact congrArg (· ++ _) (List.append_nil _)
      have isHeaders : dispatched conn'.trace = dispatched conn.trace ++
          [(frame.streamId, (decode stream.headerBlock conn.recvDynTable).1)] := by
        rw [isTrace, dispatched_append, (ran_sent answer).2, List.append_nil, dispatched_append,
          dispatched_append, isId]
        exact congrArg (· ++ _) (List.append_nil _)
      constructor
      · rw [isBlocks, isReading]
        exact next_decoded (inStep.inOrder.trans (blocks_read _ frame)) holds.complete (if_pos rfl)
          isNext
      · rw [isBlocks, decodeAll_append, inStep.decoded, isHeaders, isTable]
        rfl
      · rw [isReading, blockOf_setStream streams, isId]
        exact holds

theorem Serves.inStep {server : Http2Server App} {app : App} {conn : Http2Conn App}
    (serves : Serves server app StaysInStep conn) : InStep conn := by
  induction serves with
  | start =>
      constructor
      · exact List.prefix_rfl
      · rfl
      · exact ⟨nofun, nofun⟩
  | frame serves frame goesOn condition step ih =>
      exact ih.handled serves.keeps condition (handleFrame_handled step)

/-- Requests that run have the headers that the client encoded for them, in the order in which
their blocks were completed, and the decoder's table follows these blocks only. -/
theorem dispatched_asEncoded {server : Http2Server App} {app : App} {conn : Http2Conn App}
    (encode : State → List HpackHeader → List Int64 × State) (state : State)
    (lists : List (Int64 × List HpackHeader))
    (understood : (decodeAll (HpackDynTable.new 4096) (encodeAll encode state lists)).1 = lists)
    (serves : Serves server app StaysInStep conn)
    (sends : (reading conn.trace).blocks = encodeAll encode state lists) :
    decodedBlocks conn.trace <+: (reading conn.trace).blocks ∧ dispatched conn.trace <+: lists ∧
      conn.recvDynTable =
        (decodeAll (HpackDynTable.new 4096) (decodedBlocks conn.trace)).2 := by
  have inStep := serves.inStep
  refine ⟨inStep.inOrder, ?_, ?_⟩
  · rcases inStep.inOrder with ⟨rest, isBlocks⟩
    rw [← sends, ← isBlocks, decodeAll_append, inStep.decoded] at understood
    exact ⟨_, understood⟩
  · rw [inStep.decoded]

/-- An encoder for short texts that refers to the field it has added last. -/
def recentEncode (last : Option HpackHeader) :
    List HpackHeader → List Int64 × Option HpackHeader
  | [] => ([], last)
  | h :: headers =>
      let rest := recentEncode (some h) headers
      let bytes (s : CString) : List Int64 := Int64.ofNat s.length :: s.map byteValue
      (if last = some h then 190 :: rest.1 else 64 :: bytes h.name ++ bytes h.value ++ rest.1,
        rest.2)

/-- A server without routes. -/
def emptyServer : Http2Server Unit :=
  ⟨[], [], fun _ => []⟩

/-- A header field. -/
def field : HpackHeader :=
  ⟨literal "x", literal "a"⟩

/-- A frame with a whole header block. -/
def wholeBlock (streamId flags : Int64) (block : List Int64) : Http2Frame :=
  Http2Frame.new Http2FrameType.HEADERS (Http2Flags.END_HEADERS ||| flags) streamId block

theorem wholeBlock_asEncoded : ∃ conn,
    handleFrame emptyServer (Http2Conn.new ()).sendServerSettings
      (wholeBlock 1 Http2Flags.END_STREAM [64, 1, 120, 1, 97]) = some conn ∧
    decodedBlocks conn.trace <+: (reading conn.trace).blocks ∧
    dispatched conn.trace <+: [(1, [field])] ∧
    conn.recvDynTable = (decodeAll (HpackDynTable.new 4096) (decodedBlocks conn.trace)).2 := by
  have isBlocks : (handleFrame emptyServer (Http2Conn.new ()).sendServerSettings
      (wholeBlock 1 Http2Flags.END_STREAM [64, 1, 120, 1, 97])).map
        (fun conn => (reading conn.trace).blocks) =
      some (encodeAll recentEncode none [(1, [field])]) := by decide
  rcases Option.map_eq_some_iff.mp isBlocks with ⟨conn, step, sends⟩
  have stays : StaysInStep (Http2Conn.new ()).sendServerSettings
      (wholeBlock 1 Http2Flags.END_STREAM [64, 1, 120, 1, 97]) := by
    constructor
    · change Http2FrameType.HEADERS ≠ Http2FrameType.CONTINUATION
      decide
    · exact fun _ => rfl
    · exact fun _ _ _ _ => rfl
    · rfl
  exact ⟨conn, step, dispatched_asEncoded recentEncode none [(1, [field])]
    (by with_unfolding_all decide) (.frame .start _ rfl stays step) sends⟩

/-- A request with a body is still open when the next one refers to its header field. -/
theorem interleaved_outOfStep : ∃ conn, Serves emptyServer () Contiguous conn ∧
    (reading conn.trace).blocks = encodeAll recentEncode none [(1, [field]), (3, [field])] ∧
    (decodeAll (HpackDynTable.new 4096)
      (encodeAll recentEncode none [(1, [field]), (3, [field])])).1 = [(1, [field]), (3, [field])] ∧
    dispatched conn.trace = [(3, [⟨[], []⟩])] ∧
    ¬ dispatched conn.trace <+: [(1, [field]), (3, [field])] := by
  have isRun : (handleConnection emptyServer (Http2Conn.new ()).sendServerSettings
      [wholeBlock 1 0 [64, 1, 120, 1, 97], wholeBlock 3 Http2Flags.END_STREAM [190]]).map
        (fun conn => ((reading conn.trace).blocks, dispatched conn.trace)) =
      some (encodeAll recentEncode none [(1, [field]), (3, [field])], [(3, [⟨[], []⟩])]) := by
    with_unfolding_all decide
  have isOpen : (handleFrame emptyServer (Http2Conn.new ()).sendServerSettings
      (wholeBlock 1 0 [64, 1, 120, 1, 97])).map (fun conn => (reading conn.trace).current) =
      some none := by
    decide
  rcases Option.map_eq_some_iff.mp isRun with ⟨conn, run, isResult⟩
  rcases handleConnection_cons rfl run with ⟨once, first, isRest⟩
  rcases handleConnection_cons rfl isRest with ⟨twice, second, isEnd⟩
  cases isEnd
  rw [first] at isOpen
  have noBlock : (reading once.trace).current = none := Option.some.inj isOpen
  have contiguous : Contiguous once (wholeBlock 3 Http2Flags.END_STREAM [190]) := by
    rw [Contiguous, noBlock]
    change Http2FrameType.HEADERS ≠ Http2FrameType.CONTINUATION
    decide
  have contiguous' : Contiguous (Http2Conn.new ()).sendServerSettings
      (wholeBlock 1 0 [64, 1, 120, 1, 97]) := by
    change Http2FrameType.HEADERS ≠ Http2FrameType.CONTINUATION
    decide
  have isWrong : dispatched conn.trace = [(3, [⟨[], []⟩])] := congrArg Prod.snd isResult
  refine ⟨conn, .frame (.frame .start _ rfl contiguous' first) _ rfl contiguous second,
    congrArg Prod.fst isResult, ?_, isWrong, ?_⟩
  · with_unfolding_all decide
  · rw [isWrong]
    decide

end Tinox.Net
