import Tinox.Net.Http2Compression

/-!
# Payloads, index by index

The handlers of `Http2Server` read payloads by index, at offsets that come from the frame.  Which
frames make them read outside, and how far what they collect can grow.
-/

namespace Tinox.Net

open Tinox.Runtime

variable {App : Type}

/-- The loop of `processHeaders` and `processData` over a payload: none is an index outside. -/
def copyLoop (payload : List Int64) (stop : Int) (i : Nat) : Option (List Int64) :=
  if i < stop then do
    let b ← payload[i]?
    let bytes ← copyLoop payload stop (i + 1)
    some (b :: bytes)
  else some []
termination_by (stop - i).toNat
decreasing_by omega

/-- What `processHeaders` pushes to the header block of a stream. -/
def headersLoop (frame : Http2Frame) : Option (List Int64) := do
  let (padLength, payloadOffset) ← padding frame
  copyLoop frame.payload (frame.payload.length - padLength.toInt)
    (if frame.has Http2Flags.PRIORITY then payloadOffset + 5 else payloadOffset)

/-- What `processData` pushes to the body of a stream. -/
def dataLoop (frame : Http2Frame) : Option (List Int64) := do
  let (padLength, payloadOffset) ← padding frame
  copyLoop frame.payload (frame.payload.length - padLength.toInt) payloadOffset

/-- The loop of `processSettings`, six indexes a round. -/
def settingsLoop (conn : Http2Conn App) (payload : List Int64) (i : Nat) : Option (Http2Conn App) :=
  if i + 5 < payload.length then do
    let b₀ ← payload[i]?
    let b₁ ← payload[i + 1]?
    let b₂ ← payload[i + 2]?
    let b₃ ← payload[i + 3]?
    let b₄ ← payload[i + 4]?
    let b₅ ← payload[i + 5]?
    settingsLoop (applySettings conn [b₀, b₁, b₂, b₃, b₄, b₅]) payload (i + 6)
  else some conn
termination_by payload.length - i

/-- Every index that the handlers make for a frame is inside its payload. -/
structure InRange (conn : Http2Conn App) (frame : Http2Frame) : Prop where
  settings : frame.type = Http2FrameType.SETTINGS → frame.has Http2Flags.ACK = false →
    (settingsLoop (conn.see (.received frame)) frame.payload 0).isSome
  headers : frame.type = Http2FrameType.HEADERS → (headersLoop frame).isSome
  data : frame.type = Http2FrameType.DATA → (conn.streams frame.streamId).isSome →
    (dataLoop frame).isSome

/-- The payload of a frame that `readFrame` returns: bytes. -/
def OfBytes (frame : Http2Frame) : Prop :=
  ∀ b ∈ frame.payload, bits b < 256

instance (frame : Http2Frame) : Decidable (OfBytes frame) :=
  List.decidableBAll (fun b => bits b < 256) frame.payload

theorem readBytes_bytes (fd : Socket) (count : Int64) : ∀ b ∈ (readBytes fd count).1, bits b < 256 := by
  intro b member
  rw [readBytes] at member
  dsimp only at member
  rw [map_charCodeAt] at member
  rcases List.mem_map.mp member with ⟨byte, -, rfl⟩
  rw [bits_byteValue]
  exact byte.toNat_lt

variable {conn : Http2Conn App} {frame : Http2Frame}

theorem copyLoop_eq {payload : List Int64} {stop : Int} (inside : stop ≤ payload.length) (i : Nat) :
    copyLoop payload stop i = some ((payload.take stop.toNat).drop i) := by
  fun_induction copyLoop payload stop i with
  | case1 i more ih =>
      have isIndex : i < payload.length := by omega
      have isTaken : i < (payload.take stop.toNat).length := by
        rw [List.length_take]
        omega
      rw [List.getElem?_eq_getElem isIndex, ih, List.drop_eq_getElem_cons isTaken, List.getElem_take]
      rfl
  | case2 i noMore =>
      have isEnd : (payload.take stop.toNat).length ≤ i := by
        rw [List.length_take]
        omega
      rw [List.drop_eq_nil_of_le isEnd]

theorem applySettings_cons (conn : Http2Conn App) (b₀ b₁ b₂ b₃ b₄ b₅ : Int64)
    (payload : List Int64) :
    applySettings conn (b₀ :: b₁ :: b₂ :: b₃ :: b₄ :: b₅ :: payload) =
      applySettings (applySettings conn [b₀, b₁, b₂, b₃, b₄, b₅]) payload :=
  rfl

theorem applySettings_short {payload : List Int64} (short : payload.length < 6) :
    applySettings conn payload = conn := by
  match payload with
  | [] | [_] | [_, _] | [_, _, _] | [_, _, _, _] | [_, _, _, _, _] => rfl
  | _ :: _ :: _ :: _ :: _ :: _ :: rest =>
      simp only [List.length_cons] at short
      omega

theorem settingsLoop_eq (conn : Http2Conn App) (payload : List Int64) (i : Nat) :
    settingsLoop conn payload i = some (applySettings conn (payload.drop i)) := by
  fun_induction settingsLoop conn payload i with
  | case1 conn i more ih =>
      have isRest : payload.drop i = payload[i] :: payload[i + 1] :: payload[i + 2] ::
          payload[i + 3] :: payload[i + 4] :: payload[i + 5] :: payload.drop (i + 6) := by
        iterate 6 rw [List.drop_eq_getElem_cons (by omega)]
      rw [isRest, applySettings_cons]
      simp only [List.getElem?_eq_getElem (by omega : i < payload.length),
        List.getElem?_eq_getElem (by omega : i + 1 < payload.length),
        List.getElem?_eq_getElem (by omega : i + 2 < payload.length),
        List.getElem?_eq_getElem (by omega : i + 3 < payload.length),
        List.getElem?_eq_getElem (by omega : i + 4 < payload.length),
        List.getElem?_eq_getElem (by omega : i + 5 < payload.length)]
      exact ih _ _ _ _ _ _
  | case2 conn i noMore =>
      rw [applySettings_short]
      rw [List.length_drop]
      omega

theorem padding_nonneg (ofBytes : OfBytes frame) {padLength : Int64} {payloadOffset : Nat}
    (isPadding : padding frame = some (padLength, payloadOffset)) : 0 ≤ padLength.toInt := by
  rw [padding] at isPadding
  split at isPadding
  · rcases Option.map_eq_some_iff.mp isPadding with ⟨first, isFirst, same⟩
    cases same
    have isByte := ofBytes padLength (List.mem_of_mem_head? isFirst)
    rw [toInt_of_small (by omega)]
    omega
  · cases isPadding
    decide

/-- The bytes of a HEADERS frame are read inside its payload once the padding is known. -/
theorem headersLoop_eq (ofBytes : OfBytes frame) : headersLoop frame = headerFragment frame := by
  rw [headersLoop, headerFragment]
  apply Option.bind_congr
  rintro ⟨padLength, payloadOffset⟩ isPadding
  have notNegative := padding_nonneg ofBytes isPadding
  exact copyLoop_eq (by omega) _

theorem dataLoop_eq (ofBytes : OfBytes frame) : dataLoop frame = dataContent frame := by
  rw [dataLoop, dataContent]
  apply Option.bind_congr
  rintro ⟨padLength, payloadOffset⟩ isPadding
  have notNegative := padding_nonneg ofBytes isPadding
  exact copyLoop_eq (by omega) _

/-- The length of the padding is missing. -/
def Http2Frame.LacksPadding (frame : Http2Frame) : Prop :=
  frame.has Http2Flags.PADDED ∧ frame.payload = []

theorem padding_eq_none_iff : padding frame = none ↔ frame.LacksPadding := by
  rw [padding, Http2Frame.LacksPadding]
  split
  · next padded => simp [padded]
  · next notPadded => simp [notPadded]

theorem headerFragment_eq_some (notLacking : ¬ frame.LacksPadding) :
    headerFragment frame = some (fragment frame) := by
  cases isPadding : padding frame with
  | none => exact absurd ((padding_eq_none_iff).mp isPadding) notLacking
  | some pair =>
      cases isFragment : headerFragment frame with
      | none =>
          rw [headerFragment, isPadding] at isFragment
          cases isFragment
      | some bytes => rw [headerFragment_eq isFragment]

theorem dataContent_eq_some (notLacking : ¬ frame.LacksPadding) :
    dataContent frame = some (unpadded frame) := by
  cases isPadding : padding frame with
  | none => exact absurd ((padding_eq_none_iff).mp isPadding) notLacking
  | some pair =>
      rcases pair with ⟨padLength, payloadOffset⟩
      rw [dataContent, isPadding]
      exact congrArg some (content_eq isPadding 0)

theorem headerFragment_none (lacking : frame.LacksPadding) : headerFragment frame = none := by
  rw [headerFragment, (padding_eq_none_iff).mpr lacking]
  rfl

theorem dataContent_none (lacking : frame.LacksPadding) : dataContent frame = none := by
  rw [dataContent, (padding_eq_none_iff).mpr lacking]
  rfl

/-- A frame that brings bytes and says nothing of its padding. -/
def Unreadable (conn : Http2Conn App) (frame : Http2Frame) : Prop :=
  frame.LacksPadding ∧ (frame.type = Http2FrameType.HEADERS ∨
    frame.type = Http2FrameType.DATA ∧ (conn.streams frame.streamId).isSome)

theorem inRange_iff (ofBytes : OfBytes frame) : InRange conn frame ↔ ¬ Unreadable conn frame := by
  constructor
  · rintro inRange ⟨lacking, isHeaders | ⟨isData, known⟩⟩
    · have isSome := inRange.headers isHeaders
      rw [headersLoop_eq ofBytes, headerFragment_none lacking] at isSome
      cases isSome
    · have isSome := inRange.data isData known
      rw [dataLoop_eq ofBytes, dataContent_none lacking] at isSome
      cases isSome
  · intro readable
    constructor
    · intro isSettings notAck
      rw [settingsLoop_eq]
      rfl
    · intro isHeaders
      rw [headersLoop_eq ofBytes, headerFragment_eq_some fun lacking => readable ⟨lacking, Or.inl isHeaders⟩]
      rfl
    · intro isData known
      rw [dataLoop_eq ofBytes,
        dataContent_eq_some fun lacking => readable ⟨lacking, Or.inr ⟨isData, known⟩⟩]
      rfl

/-- The header block that a connection keeps for a stream. -/
def Http2Conn.block (conn : Http2Conn App) (id : Int64) : List Int64 :=
  (conn.streams id).elim [] (·.headerBlock)

/-- The body that a connection keeps for a stream. -/
def Http2Conn.body (conn : Http2Conn App) (id : Int64) : List Int64 :=
  (conn.streams id).elim [] (·.body)

/-- The header bytes that a frame brings. -/
def headerContent (conn : Http2Conn App) (frame : Http2Frame) : List Int64 :=
  if frame.type = Http2FrameType.HEADERS then fragment frame
  else if frame.type = Http2FrameType.CONTINUATION ∧ (conn.streams frame.streamId).isSome then
    frame.payload
  else []

/-- The body bytes that a frame brings. -/
def bodyContent (conn : Http2Conn App) (frame : Http2Frame) : List Int64 :=
  if frame.type = Http2FrameType.DATA ∧ (conn.streams frame.streamId).isSome then unpadded frame
  else []

/-- A frame adds what it brings to its own stream. -/
structure Brings (conn : Http2Conn App) (frame : Http2Frame) (conn' : Http2Conn App) : Prop where
  block : ∀ id, conn'.block id =
    conn.block id ++ if id = frame.streamId then headerContent conn frame else []
  body : ∀ id, conn'.body id =
    conn.body id ++ if id = frame.streamId then bodyContent conn frame else []

variable {conn' : Http2Conn App}

theorem Gathers.block_eq {stream : Http2Stream} (gathers : Gathers conn frame stream) :
    stream.headerBlock = conn.block frame.streamId ++ headerContent conn frame := by
  rw [headerContent]
  cases gathers with
  | headers before fragment isHeaders isStream isFragment =>
      rw [if_pos isHeaders, ← headerFragment_eq isFragment, ← isStream, Http2Conn.block]
      cases conn.streams frame.streamId <;> rfl
  | continuation before isContinuation known =>
      simp [isContinuation, known, Http2Conn.block, Http2FrameType.CONTINUATION,
        Http2FrameType.HEADERS]
  | data before bytes isData known isContent =>
      simp [isData, known, Http2Conn.block, Http2FrameType.CONTINUATION, Http2FrameType.HEADERS,
        Http2FrameType.DATA]

theorem Gathers.body_eq {stream : Http2Stream} (gathers : Gathers conn frame stream) :
    stream.body = conn.body frame.streamId ++ bodyContent conn frame := by
  rw [bodyContent]
  cases gathers with
  | headers before fragment isHeaders isStream isFragment =>
      have noBody : ¬ (frame.type = Http2FrameType.DATA ∧
          (conn.streams frame.streamId).isSome) := by
        rw [isHeaders]
        exact fun isData => absurd isData.1 (by decide)
      simp only [if_neg noBody, List.append_nil, ← isStream, Http2Conn.body]
      cases conn.streams frame.streamId <;> rfl
  | continuation before isContinuation known =>
      simp [isContinuation, known, Http2Conn.body, Http2FrameType.CONTINUATION, Http2FrameType.DATA]
  | data before bytes isData known isContent =>
      simp [isData, known, Http2Conn.body, dataContent_eq isContent]

theorem Gathers.brings {conn conn' : Http2Conn App} {frame : Http2Frame} {stream last : Http2Stream}
    (gathers : Gathers conn frame stream) (sameBlock : last.headerBlock = stream.headerBlock)
    (sameBody : last.body = stream.body)
    (streams : conn'.streams = (conn.setStream frame.streamId last).streams) :
    Brings conn frame conn' := by
  constructor
  · intro id
    rw [Http2Conn.block]
    split
    · next same =>
        rw [same, setStream_self streams, ← gathers.block_eq]
        exact sameBlock
    · next differ =>
        rw [setStream_other streams differ, List.append_nil]
        rfl
  · intro id
    rw [Http2Conn.body]
    split
    · next same =>
        rw [same, setStream_self streams, ← gathers.body_eq]
        exact sameBody
    · next differ =>
        rw [setStream_other streams differ, List.append_nil]
        rfl

theorem handleFrame_overlong {server : Http2Server App} {conn : Http2Conn App} {frame : Http2Frame}
    {stream : Http2Stream} (isCollected : collected conn frame = some stream)
    (long : overlong frame stream) : ∃ conn' last, handleFrame server conn frame = some conn' ∧
      conn'.streams = (conn.setStream frame.streamId last).streams ∧
      last.headerBlock = stream.headerBlock ∧ last.body = stream.body := by
  cases gathers_of_collected isCollected with
  | headers before fragment isHeaders isStream isFragment =>
      have notData : frame.type ≠ Http2FrameType.DATA := by
        rw [isHeaders]
        decide
      have isLong : maxHeaderBlock < (before.headerBlock ++ fragment).length := by
        rw [overlong, if_neg notData] at long
        exact of_decide_eq_true long
      have isStep : handleFrame server conn frame =
          processHeaders server (conn.see (.received frame)) frame := by
        rw [handleFrame, isHeaders]
        rfl
      subst isStream
      rw [isStep, processHeaders, isFragment]
      change ∃ conn' last, (if maxHeaderBlock < (((conn.streams frame.streamId).getD
        (Http2Stream.new frame.streamId)).headerBlock ++ fragment).length then _ else _) = _ ∧ _
      rw [if_pos isLong]
      exact ⟨_, _, rfl, rfl, rfl, rfl⟩
  | continuation before isContinuation known =>
      have notData : frame.type ≠ Http2FrameType.DATA := by
        rw [isContinuation]
        decide
      have isLong : maxHeaderBlock < (before.headerBlock ++ frame.payload).length := by
        rw [overlong, if_neg notData] at long
        exact of_decide_eq_true long
      have isStep : handleFrame server conn frame =
          processContinuation server (conn.see (.received frame)) frame := by
        rw [handleFrame, isContinuation]
        rfl
      have isSame : (conn.see (.received frame)).streams = conn.streams := rfl
      rw [isStep, processContinuation, isSame, known]
      dsimp only
      rw [if_pos isLong]
      exact ⟨_, _, rfl, rfl, rfl, rfl⟩
  | data before bytes isData known isContent =>
      have isLong : maxBody < (before.body ++ bytes).length := by
        rw [overlong, if_pos isData] at long
        exact of_decide_eq_true long
      have isStep : handleFrame server conn frame =
          processData server (conn.see (.received frame)) frame := by
        rw [handleFrame, isData]
        rfl
      have isSame : (conn.see (.received frame)).streams = conn.streams := rfl
      rw [isStep, processData, isSame, known]
      dsimp only
      rw [isContent]
      change ∃ conn' last, (if maxBody < (before.body ++ bytes).length then _ else _) = _ ∧ _
      rw [if_pos isLong]
      exact ⟨_, _, rfl, rfl, rfl, rfl⟩

theorem SameStream.kept {id : Int64} (same : SameStream (conn.streams id) (conn'.streams id)) :
    conn'.block id = conn.block id ∧ conn'.body id = conn.body id := by
  rw [Http2Conn.block, Http2Conn.body, Http2Conn.block, Http2Conn.body]
  cases known : conn.streams id <;> cases known' : conn'.streams id <;>
    simp_all [SameStream]

theorem content_of_not_collected (noStream : collected conn frame = none)
    (notHeaders : frame.type ≠ Http2FrameType.HEADERS) : headerContent conn frame = [] := by
  rw [headerContent, if_neg notHeaders, if_neg]
  rintro ⟨isContinuation, known⟩
  rcases Option.isSome_iff_exists.mp known with ⟨stream, isStream⟩
  rw [collected, if_neg notHeaders, if_pos isContinuation, isStream] at noStream
  cases noStream

theorem handleFrame_brings {server : Http2Server App} (keeps : Keeps conn)
    (step : handleFrame server conn frame = some conn') : Brings conn frame conn' := by
  cases handleFrame_handled step with
  | passed answer noStream notHeaders notData harmless isTrace streams isTable =>
      have noBody : bodyContent conn frame = [] := if_neg fun isData => notData isData.1
      constructor
      · intro id
        rw [content_of_not_collected noStream notHeaders, ite_self, List.append_nil]
        exact (streams id).kept.1
      · intro id
        rw [noBody, ite_self, List.append_nil]
        exact (streams id).kept.2
  | refused reset isData unknown resets isTrace streams isTable =>
      have noBlock : headerContent conn frame = [] := by
        simp [headerContent, isData, Http2FrameType.DATA, Http2FrameType.HEADERS,
          Http2FrameType.CONTINUATION]
      have noBody : bodyContent conn frame = [] := by
        simp [bodyContent, unknown]
      constructor
      · intro id
        rw [noBlock, ite_self, List.append_nil, Http2Conn.block, streams]
        rfl
      · intro id
        rw [noBody, ite_self, List.append_nil, Http2Conn.body, streams]
        rfl
  | aborted stream last reset isCollected long same resets isTrace streams isTable =>
      rcases @handleFrame_overlong _ server _ _ _ isCollected long with
        ⟨conn'', last, step', streams', sameBlock, sameBody⟩
      rw [step, Option.some_inj] at step'
      subst step'
      exact (gathers_of_collected isCollected).brings sameBlock sameBody streams'
  | kept stream last isCollected short goesOn same isTrace streams isTable =>
      apply (gathers_of_collected isCollected).brings _ _ streams
      · rw [same]
      · rw [same]
  | ran stream answer isCollected short isLast isAnswer isTrace streams isTable =>
      have gathers := gathers_of_collected isCollected
      rw [gathers.id_eq keeps.named] at streams
      exact @Gathers.brings _ _ _ _ _ { stream with id := frame.streamId, state := .closed }
        gathers rfl rfl streams

/-- The conditions on a frame: its padding can be read, and it brings nothing to a stream that is
over its cap. -/
structure Harmless (conn : Http2Conn App) (frame : Http2Frame) : Prop where
  readable : ¬ Unreadable conn frame
  block : maxHeaderBlock < (conn.block frame.streamId).length → headerContent conn frame = []
  body : maxBody < (conn.body frame.streamId).length → bodyContent conn frame = []

/-- Bytes grow by a piece without padding, unless they are over their cap. -/
def GrowsBelow (cap : Nat) (before piece after : List Int64) : Prop :=
  after = before ∨ before.length ≤ cap ∧ after = before ++ piece

/-- What must be so when a connection handles a frame. -/
structure Withstands (server : Http2Server App) (conn : Http2Conn App) (frame : Http2Frame) : Prop where
  inRange : InRange conn frame
  grows : ∀ conn', handleFrame server conn frame = some conn' → ∀ id,
    GrowsBelow maxHeaderBlock (conn.block id)
      (if id = frame.streamId then headerContent conn frame else []) (conn'.block id) ∧
    GrowsBelow maxBody (conn.body id)
      (if id = frame.streamId then bodyContent conn frame else []) (conn'.body id)

/-- The bytes of a stream are over their cap by no more than one of its frames. -/
def Capped (cap : Nat) (trace : List Event) (streamId : Int64) (bytes : List Int64) : Prop :=
  bytes.length ≤ cap ∨ ∃ frame, Event.received frame ∈ trace ∧ frame.streamId = streamId ∧
    bytes.length ≤ cap + frame.payload.length

variable {cap : Nat} {before piece after : List Int64}

theorem length_unpadded_le (frame : Http2Frame) :
    (unpadded frame).length ≤ frame.payload.length := by
  rw [unpadded]
  split
  · cases frame.payload with
    | nil => exact Nat.le_refl _
    | cons first rest =>
        dsimp only
        rw [List.length_take, List.length_cons]
        omega
  · exact Nat.le_refl _

theorem length_headerContent_le (conn : Http2Conn App) (frame : Http2Frame) :
    (headerContent conn frame).length ≤ frame.payload.length := by
  rw [headerContent]
  split
  · rw [fragment, List.length_drop]
    exact Nat.le_trans (Nat.sub_le _ _) (length_unpadded_le frame)
  · split
    · exact Nat.le_refl _
    · exact Nat.zero_le _

theorem length_bodyContent_le (conn : Http2Conn App) (frame : Http2Frame) :
    (bodyContent conn frame).length ≤ frame.payload.length := by
  rw [bodyContent]
  split
  · exact length_unpadded_le frame
  · exact Nat.zero_le _

theorem collected_of_headerContent (readable : ¬ Unreadable conn frame)
    (some' : headerContent conn frame ≠ []) :
    ∃ stream, collected conn frame = some stream ∧ frame.type ≠ Http2FrameType.DATA := by
  rw [headerContent] at some'
  split at some'
  · next isHeaders =>
      have isFragment := headerFragment_eq_some fun lacking => readable ⟨lacking, Or.inl isHeaders⟩
      rw [collected, if_pos isHeaders, isFragment, isHeaders]
      exact ⟨_, rfl, by decide⟩
  · next notHeaders =>
      split at some'
      · next isContinuation =>
          rcases Option.isSome_iff_exists.mp isContinuation.2 with ⟨stream, known⟩
          rw [collected, if_neg notHeaders, if_pos isContinuation.1, known, isContinuation.1]
          exact ⟨_, rfl, by decide⟩
      · exact absurd rfl some'

theorem collected_of_bodyContent (readable : ¬ Unreadable conn frame)
    (some' : bodyContent conn frame ≠ []) :
    ∃ stream, collected conn frame = some stream ∧ frame.type = Http2FrameType.DATA := by
  rw [bodyContent] at some'
  split at some'
  · next isData =>
      have isContent := dataContent_eq_some fun lacking => readable ⟨lacking, Or.inr isData⟩
      rcases Option.isSome_iff_exists.mp isData.2 with ⟨stream, known⟩
      have notHeaders : frame.type ≠ Http2FrameType.HEADERS := by
        rw [isData.1]
        decide
      have notContinuation : frame.type ≠ Http2FrameType.CONTINUATION := by
        rw [isData.1]
        decide
      rw [collected, if_neg notHeaders, if_neg notContinuation, if_pos isData.1, known, isContent]
      exact ⟨_, rfl, isData.1⟩
  · exact absurd rfl some'

/-- Bytes over their cap that do not grow have been brought nothing. -/
theorem GrowsBelow.piece_nil (grows : GrowsBelow cap before piece after)
    (long : cap < before.length) (isAfter : after = before ++ piece) : piece = [] := by
  rcases grows with same | ⟨short, -⟩
  · rw [isAfter] at same
    exact List.append_right_eq_self.mp same
  · omega

theorem growsBelow_of_eq (isAfter : after = before ++ piece)
    (harmless : cap < before.length → piece = []) : GrowsBelow cap before piece after := by
  by_cases long : cap < before.length
  · rw [harmless long, List.append_nil] at isAfter
    exact Or.inl isAfter
  · exact Or.inr ⟨Nat.le_of_not_lt long, isAfter⟩

theorem withstands_iff {server : Http2Server App} (keeps : Keeps conn) (ofBytes : OfBytes frame) :
    Withstands server conn frame ↔ Harmless conn frame := by
  constructor
  · intro withstands
    have readable := (inRange_iff ofBytes).mp withstands.inRange
    refine ⟨readable, fun long => ?_, fun long => ?_⟩
    · by_contra brought
      rcases collected_of_headerContent readable brought with ⟨stream, isCollected, notData⟩
      have isLong : overlong frame stream := by
        rw [overlong, if_neg notData, decide_eq_true_iff,
          (gathers_of_collected isCollected).block_eq, List.length_append]
        omega
      rcases @handleFrame_overlong _ server _ _ _ isCollected isLong with ⟨conn', last, step, -⟩
      have isAfter := (handleFrame_brings keeps step).block frame.streamId
      rw [if_pos rfl] at isAfter
      have grows := (withstands.grows conn' step frame.streamId).1
      rw [if_pos rfl] at grows
      exact brought (grows.piece_nil long isAfter)
    · by_contra brought
      rcases collected_of_bodyContent readable brought with ⟨stream, isCollected, isData⟩
      have isLong : overlong frame stream := by
        rw [overlong, if_pos isData, decide_eq_true_iff,
          (gathers_of_collected isCollected).body_eq, List.length_append]
        omega
      rcases @handleFrame_overlong _ server _ _ _ isCollected isLong with ⟨conn', last, step, -⟩
      have isAfter := (handleFrame_brings keeps step).body frame.streamId
      rw [if_pos rfl] at isAfter
      have grows := (withstands.grows conn' step frame.streamId).2
      rw [if_pos rfl] at grows
      exact brought (grows.piece_nil long isAfter)
  · intro harmless
    refine ⟨(inRange_iff ofBytes).mpr harmless.readable, fun conn' step id => ?_⟩
    have brings := handleFrame_brings keeps step
    constructor
    · apply growsBelow_of_eq (brings.block id)
      intro long
      split
      · next same =>
          rw [same] at long
          exact harmless.block long
      · rfl
    · apply growsBelow_of_eq (brings.body id)
      intro long
      split
      · next same =>
          rw [same] at long
          exact harmless.body long
      · rfl

theorem Handled.received_mem (handled : Handled conn frame conn') :
    Event.received frame ∈ conn'.trace := by
  cases handled with
  | passed answer noStream notHeaders notData harmless isTrace
  | refused reset isData unknown resets isTrace
  | aborted stream last reset isCollected long same resets isTrace
  | kept stream last isCollected short goesOn same isTrace
  | ran stream answer isCollected short isLast isAnswer isTrace => simp [isTrace]

theorem Capped.grows {trace trace' : List Event} {id : Int64} (capped : Capped cap trace id before)
    (grows : GrowsBelow cap before (if id = frame.streamId then piece else []) after)
    (short : piece.length ≤ frame.payload.length) (isReceived : Event.received frame ∈ trace')
    (more : ∀ event ∈ trace, event ∈ trace') : Capped cap trace' id after := by
  rcases grows with rfl | ⟨below, rfl⟩
  · rcases capped with below | ⟨frame', member, isStream, length⟩
    · exact Or.inl below
    · exact Or.inr ⟨frame', more _ member, isStream, length⟩
  · by_cases same : id = frame.streamId
    · refine Or.inr ⟨frame, isReceived, same.symm, ?_⟩
      rw [if_pos same, List.length_append]
      omega
    · rw [if_neg same, List.append_nil]
      exact Or.inl below

/-- While every frame meets the conditions, all streams stay below their caps but for one frame,
and the next frame is withstood exactly when it meets them too. -/
theorem withstands_of_serves {server : Http2Server App} {app : App} {conn : Http2Conn App}
    (serves : Serves server app (fun conn frame => OfBytes frame ∧ Harmless conn frame) conn) :
    (∀ id, Capped maxHeaderBlock conn.trace id (conn.block id) ∧
      Capped maxBody conn.trace id (conn.body id)) ∧
    ∀ frame, OfBytes frame → (Withstands server conn frame ↔ Harmless conn frame) := by
  refine ⟨?_, fun frame ofBytes => withstands_iff serves.keeps ofBytes⟩
  induction serves with
  | start => exact fun id => ⟨Or.inl (Nat.zero_le _), Or.inl (Nat.zero_le _)⟩
  | @frame conn conn' serves frame goesOn condition step ih =>
      intro id
      have handled := handleFrame_handled step
      have grows := ((withstands_iff serves.keeps condition.1).mpr condition.2).grows conn' step id
      have more : ∀ event ∈ conn.trace, event ∈ conn'.trace := by
        rcases handled.trace_append with ⟨rest, isTrace⟩
        rw [isTrace]
        exact fun event member => List.mem_append_left rest member
      exact ⟨(ih id).1.grows grows.1 (length_headerContent_le conn frame) handled.received_mem more,
        (ih id).2.grows grows.2 (length_bodyContent_le conn frame) handled.received_mem more⟩

theorem withstands_of_serves_wholeRequest : ∃ conn,
    handleFrame counter (Http2Conn.new 0).sendServerSettings wholeRequest = some conn ∧
      (∀ id, Capped maxHeaderBlock conn.trace id (conn.block id) ∧
        Capped maxBody conn.trace id (conn.body id)) ∧
      ∀ frame, OfBytes frame → (Withstands counter conn frame ↔ Harmless conn frame) := by
  rcases @wholeRequest_returns _ counter 0 rfl with ⟨conn, step⟩
  have ofBytes : OfBytes wholeRequest := by decide
  have harmless : Harmless (Http2Conn.new 0).sendServerSettings wholeRequest := by
    have noBlock : (Http2Conn.new 0).sendServerSettings.block wholeRequest.streamId = [] := rfl
    have noBody : (Http2Conn.new 0).sendServerSettings.body wholeRequest.streamId = [] := rfl
    refine ⟨?_, ?_, ?_⟩
    · rintro ⟨lacking, -⟩
      exact absurd lacking.1 (by decide)
    · rw [noBlock]
      exact fun long => absurd long (Nat.not_lt_zero maxHeaderBlock)
    · rw [noBody]
      exact fun long => absurd long (Nat.not_lt_zero maxBody)
  exact ⟨conn, step, withstands_of_serves (.frame .start wholeRequest rfl ⟨ofBytes, harmless⟩ step)⟩

/-- Headers that are padded, with no byte for the length of the padding. -/
def noPadding : Http2Frame :=
  Http2Frame.new Http2FrameType.HEADERS Http2Flags.PADDED 1 []

/-- They are read outside, and end the server. -/
theorem noPadding_outside :
    OfBytes noPadding ∧ headersLoop noPadding = none ∧
      handleFrame counter (Http2Conn.new 0).sendServerSettings noPadding = none ∧
      ¬ ∀ conn, Serves counter 0 (fun _ frame => OfBytes frame) conn → ∀ frame, OfBytes frame →
        Withstands counter conn frame := by
  have outside : headersLoop noPadding = none := rfl
  refine ⟨nofun, outside, rfl, fun withstands => ?_⟩
  have isSome := (withstands _ .start noPadding nofun).inRange.headers rfl
  rw [outside] at isSome
  cases isSome

end Tinox.Net
