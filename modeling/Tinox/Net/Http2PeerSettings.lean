import Tinox.Net.HpackBounds
import Tinox.Net.HpackRoundTrip
import Tinox.Net.Http2Payloads

/-!
# The peer's settings

What the peer has asked for with its SETTINGS frames, and when the frames and the header table of
the server keep to it.
-/

namespace Tinox.Net

open Tinox.Runtime Traces

variable {App : Type}

/-- The settings in a payload, in their order. -/
def settingsIn : List Int64 → List (Int64 × Int64)
  | b₀ :: b₁ :: b₂ :: b₃ :: b₄ :: b₅ :: payload =>
      ((b₀ <<< 8) ||| b₁, (b₂ <<< 24) ||| (b₃ <<< 16) ||| (b₄ <<< 8) ||| b₅) :: settingsIn payload
  | _ => []

/-- The value of a setting behind others. -/
def lastSetting (id : Int64) (settings : List (Int64 × Int64)) (value : Int64) : Int64 :=
  settings.foldl (fun value setting => if setting.1 = id then setting.2 else value) value

/-- The value of a setting behind a frame. -/
def settingAfter (id : Int64) (frame : Http2Frame) (value : Int64) : Int64 :=
  if frame.type = Http2FrameType.SETTINGS ∧ frame.has Http2Flags.ACK = false then
    lastSetting id (settingsIn frame.payload) value
  else value

/-- The value of a setting behind a trace. -/
def peerSetting (id initial : Int64) (trace : List Event) : Int64 :=
  trace.foldl (fun value event =>
    match event with
    | .received frame => settingAfter id frame value
    | _ => value) initial

/-- The largest payload that the peer takes. -/
def peerMax (trace : List Event) : Int64 :=
  peerSetting Http2Settings.MAX_FRAME_SIZE 16384 trace

/-- The largest table that the peer keeps for the server's header blocks. -/
def peerTable (trace : List Event) : Int64 :=
  peerSetting Http2Settings.HEADER_TABLE_SIZE 4096 trace

/-- A frame that is sent is one that the peer takes. -/
def Short (before : List Event) : Event → Prop
  | .sent frame => (frame.payload.length : Int) ≤ (peerMax before).toInt
  | _ => True

/-- All frames that have been sent, and the table they are encoded with, keep to the peer's
settings. -/
structure Honours (conn : Http2Conn App) : Prop where
  short : EachAfter Short conn.trace
  table : (tableLength conn.sendDynTable.entries : Int) ≤ (peerTable conn.trace).toInt

/-- Frames that carry a response: headers, then its body, and the last ends the stream. -/
structure Carries (streamId : Int64) (response : HttpResponse) (answer : List Http2Frame) : Prop where
  headersFirst : ∃ headers data, answer = headers :: data ∧
    headers.type = Http2FrameType.HEADERS ∧ ∀ frame ∈ data, frame.type = Http2FrameType.DATA
  stream : ∀ frame ∈ answer, frame.streamId = streamId
  body : (answer.tail.flatMap (·.payload)).map lowByte = response.body
  ends : ∀ before frame after, answer = before ++ frame :: after →
    (frame.has Http2Flags.END_STREAM ↔ after = [])

/-- The response to the request of a stream. -/
def responseOf (server : Http2Server App) (conn : Http2Conn App) (stream : Http2Stream) :
    Option HttpResponse :=
  (serve server ⟨requestOf (decode stream.headerBlock conn.recvDynTable).1 stream.body,
    HttpResponse.new⟩ conn.app).map (·.1.response)

/-- The header block that a response is sent with. -/
def responseBlock (server : Http2Server App) (conn : Http2Conn App) (response : HttpResponse) :
    List Int64 × HpackDynTable :=
  encode (responseHeaders (server.keys response.headers) response) conn.sendDynTable

/-- A frame runs the request of a stream. -/
def Runs (conn : Http2Conn App) (frame : Http2Frame) (stream : Http2Stream) : Prop :=
  collected conn frame = some stream ∧ overlong frame stream = false ∧ completes frame stream

/-- A frame that resets its stream. -/
def Aborts (conn : Http2Conn App) (frame : Http2Frame) : Prop :=
  frame.type = Http2FrameType.DATA ∧ conn.streams frame.streamId = none ∨
    ∃ stream, collected conn frame = some stream ∧ overlong frame stream

/-- A frame whose answers fit in the frames that the peer takes. -/
structure AnsweredShort (server : Http2Server App) (conn : Http2Conn App) (frame : Http2Frame) :
    Prop where
  ping : frame.type = Http2FrameType.PING →
    (frame.payload.length : Int) ≤ conn.peerMaxFrameSize.toInt
  reset : Aborts conn frame → 4 ≤ conn.peerMaxFrameSize.toInt
  response : ∀ stream response, Runs conn frame stream →
    responseOf server conn stream = some response →
      ((responseBlock server conn response).1.length : Int) ≤ conn.peerMaxFrameSize.toInt ∧
        (response.body.length : Int) ≤ conn.peerMaxFrameSize.toInt

variable {id value : Int64} {frame : Http2Frame}

theorem bits_setting (a b c d : UInt8) :
    bits ((byteValue a <<< 24) ||| (byteValue b <<< 16) ||| (byteValue c <<< 8) ||| byteValue d) =
      ((a.toNat * 2 ^ 8 + b.toNat) * 2 ^ 8 + c.toNat) * 2 ^ 8 + d.toNat := by
  have smallB := b.toNat_lt
  have smallC := c.toNat_lt
  have first := @bits_byte_shiftLeft a 24 24 (by decide) (by decide)
  have second := @bits_byte_shiftLeft b 16 16 (by decide) (by decide)
  have third := @bits_byte_shiftLeft c 8 8 (by decide) (by decide)
  have two : bits ((byteValue a <<< 24) ||| (byteValue b <<< 16)) =
      (a.toNat * 2 ^ 8 + b.toNat) * 2 ^ 16 := by
    rw [bits_or first (by rw [second]; omega), second]
    omega
  have three : bits ((byteValue a <<< 24) ||| (byteValue b <<< 16) ||| (byteValue c <<< 8)) =
      ((a.toNat * 2 ^ 8 + b.toNat) * 2 ^ 8 + c.toNat) * 2 ^ 8 := by
    rw [bits_or two (by rw [third]; omega), third]
    omega
  rw [bits_or three (by rw [bits_byteValue]; exact d.toNat_lt), bits_byteValue]

theorem settingsIn_small {payload : List Int64} (ofBytes : ∀ b ∈ payload, bits b < 256) :
    ∀ setting ∈ settingsIn payload, bits setting.2 < 2 ^ 32 := by
  fun_induction settingsIn payload with
  | case1 b₀ b₁ b₂ b₃ b₄ b₅ payload ih =>
      simp only [List.forall_mem_cons] at ofBytes
      rcases ofBytes with ⟨-, -, is₂, is₃, is₄, is₅, rest⟩
      rw [List.forall_mem_cons]
      refine ⟨?_, ih rest⟩
      dsimp only
      rw [← byteValue_lowByte is₂, ← byteValue_lowByte is₃, ← byteValue_lowByte is₄,
        ← byteValue_lowByte is₅, bits_setting]
      have small₂ := (lowByte b₂).toNat_lt
      have small₃ := (lowByte b₃).toNat_lt
      have small₄ := (lowByte b₄).toNat_lt
      have small₅ := (lowByte b₅).toNat_lt
      omega
  | case2 payload isEnd => exact nofun

theorem lastSetting_small {settings : List (Int64 × Int64)}
    (small : ∀ setting ∈ settings, bits setting.2 < 2 ^ 32) (isSmall : bits value < 2 ^ 32) :
    bits (lastSetting id settings value) < 2 ^ 32 := by
  induction settings generalizing value with
  | nil => exact isSmall
  | cons setting settings ih =>
      rw [List.forall_mem_cons] at small
      rw [lastSetting, List.foldl_cons]
      apply ih small.2
      split
      · exact small.1
      · exact isSmall

theorem settingAfter_small {id value : Int64} {frame : Http2Frame} (ofBytes : OfBytes frame)
    (isSmall : bits value < 2 ^ 32) : bits (settingAfter id frame value) < 2 ^ 32 := by
  rw [settingAfter]
  split
  · exact lastSetting_small (settingsIn_small ofBytes) isSmall
  · exact isSmall

theorem settingAfter_of_ne (notSettings : frame.type ≠ Http2FrameType.SETTINGS) :
    settingAfter id frame value = value :=
  if_neg fun isSettings => notSettings isSettings.1

theorem le_lastSetting {least : Int64} {settings : List (Int64 × Int64)}
    (given : least ≤ lastSetting id settings least) (before : least ≤ value) :
    least ≤ lastSetting id settings value := by
  induction settings with
  | nil => exact before
  | cons setting settings ih =>
      rw [lastSetting, List.foldl_cons] at given ⊢
      split
      · next same => rwa [if_pos same] at given
      · next differ =>
          rw [if_neg differ] at given
          exact ih given

/-- A bound that a frame keeps to by itself holds behind it when it holds before. -/
theorem le_settingAfter {least : Int64} (given : least ≤ settingAfter id frame least)
    (before : least ≤ value) : least ≤ settingAfter id frame value := by
  rw [settingAfter] at given ⊢
  split
  · next isSettings =>
      rw [if_pos isSettings] at given
      exact le_lastSetting given before
  · exact before

theorem peerSetting_received (id initial : Int64) (trace : List Event) (frame : Http2Frame) :
    peerSetting id initial (trace ++ [Event.received frame]) =
      settingAfter id frame (peerSetting id initial trace) := by
  rw [peerSetting, List.foldl_append]
  rfl

theorem peerSetting_ran (id initial : Int64) (trace : List Event) (streamId : Int64)
    (block : List Int64) (headers : List HpackHeader) (request : HttpRequest) :
    peerSetting id initial (trace ++ [Event.ran streamId block headers request]) =
      peerSetting id initial trace := by
  rw [peerSetting, List.foldl_append]
  rfl

theorem peerSetting_sent (id initial : Int64) (trace : List Event) (frames : List Http2Frame) :
    peerSetting id initial (trace ++ frames.map .sent) = peerSetting id initial trace := by
  induction frames generalizing trace with
  | nil => rw [List.map_nil, List.append_nil]
  | cons frame frames ih =>
      rw [List.map_cons, List.append_cons, ih, peerSetting, List.foldl_append]
      rfl

theorem short_sent (trace : List Event) (frames : List Http2Frame) :
    EachAfter Short (trace ++ frames.map .sent) ↔ EachAfter Short trace ∧
      ∀ frame ∈ frames, (frame.payload.length : Int) ≤ (peerMax trace).toInt := by
  induction frames generalizing trace with
  | nil => simp
  | cons frame frames ih =>
      have isMax : peerMax (trace ++ [Event.sent frame]) = peerMax trace :=
        peerSetting_sent _ _ trace [frame]
      rw [List.map_cons, List.append_cons, ih, isMax, eachAfter_concat, List.forall_mem_cons, Short,
        and_assoc]

theorem short_received (trace : List Event) (frame : Http2Frame) :
    EachAfter Short (trace ++ [Event.received frame]) ↔ EachAfter Short trace :=
  eachAfter_concat.trans (and_iff_left trivial)

theorem short_ran (trace : List Event) (streamId : Int64) (block : List Int64)
    (headers : List HpackHeader) (request : HttpRequest) :
    EachAfter Short (trace ++ [Event.ran streamId block headers request]) ↔ EachAfter Short trace :=
  eachAfter_concat.trans (and_iff_left trivial)

/-- The bytes of a body as a DATA frame has them. -/
def bytesOfBody (body : CString) : List Int64 :=
  (List.range body.length).map (charCodeAt body)

theorem map_lowByte_bytesOfBody (body : CString) : (bytesOfBody body).map lowByte = body := by
  rw [bytesOfBody, map_charCodeAt, List.map_map]
  exact List.map_id'' lowByte_byteValue body

theorem has_new (type flags streamId flag : Int64) (payload : List Int64) :
    (Http2Frame.new type flags streamId payload).has flag = (flags &&& flag != 0) :=
  rfl

theorem sendResponse_carries (server : Http2Server App) (conn : Http2Conn App) (streamId : Int64)
    (response : HttpResponse) : ∃ answer, Carries streamId response answer ∧
      (sendResponse server conn streamId response).trace = conn.trace ++ answer.map .sent ∧
      ∀ most : Int, (∀ frame ∈ answer, (frame.payload.length : Int) ≤ most) ↔
        ((responseBlock server conn response).1.length : Int) ≤ most ∧
          (response.body.length : Int) ≤ most := by
  rw [sendResponse]
  dsimp only
  split
  · next noBody =>
      refine ⟨[_], ⟨⟨_, [], rfl, rfl, List.forall_mem_nil _⟩, ?_, ?_, ?_⟩, rfl, ?_⟩
      · intro frame member
        rw [List.mem_singleton.mp member]
        rfl
      · exact (List.length_eq_zero_iff.mp noBody).symm
      · intro before frame after isAnswer
        rcases List.singleton_eq_append_iff.mp isAnswer with ⟨-, isLast⟩ | ⟨-, none⟩
        · cases isLast
          exact iff_of_true (by rw [has_new]; decide) rfl
        · cases none
      · intro most
        rw [List.forall_mem_singleton, noBody]
        change ((responseBlock server conn response).1.length : Int) ≤ most ↔ _
        omega
  · next someBody =>
      refine ⟨[_, _], ⟨⟨_, [_], rfl, rfl, ?_⟩, ?_, ?_, ?_⟩, List.append_assoc _ _ _, ?_⟩
      · intro frame member
        rw [List.mem_singleton.mp member]
        rfl
      · intro frame member
        rcases List.mem_pair.mp member with rfl | rfl <;> rfl
      · rw [List.tail_cons, List.flatMap_cons, List.flatMap_nil, List.append_nil]
        exact map_lowByte_bytesOfBody response.body
      · intro before frame after isAnswer
        rcases before with _ | ⟨_, _ | ⟨_, before⟩⟩
        · cases isAnswer
          exact iff_of_false (by rw [has_new]; decide) (List.cons_ne_nil _ _)
        · cases isAnswer
          exact iff_of_true (by rw [has_new]; decide) rfl
        · have lengths := congrArg List.length isAnswer
          simp only [List.length_cons, List.length_nil, List.length_append] at lengths
          omega
      · intro most
        rw [List.forall_mem_cons, List.forall_mem_singleton]
        change ((responseBlock server conn response).1.length : Int) ≤ most ∧
          ((bytesOfBody response.body).length : Int) ≤ most ↔ _
        rw [bytesOfBody, List.length_map, List.length_range]

theorem length_encodeStr (s : CString) : s.length ≤ (encodeStr s).length := by
  rw [encodeStr, List.length_append, List.length_map, List.length_range]
  exact Nat.le_add_left _ _

theorem staticTable_short :
    ∀ row ∈ staticTable, ∃ chars, row.1 = String.ofList chars ∧ chars.length ≤ 64 := by
  rw [staticTable]
  repeat' refine List.forall_mem_cons.mpr ⟨⟨_, rfl, by decide⟩, ?_⟩
  exact List.forall_mem_nil _

theorem length_staticName (index : Int64) : (staticName index).length ≤ 64 := by
  have isShort : ∃ chars, (staticRow index).1 = String.ofList chars ∧ chars.length ≤ 64 := by
    rw [staticRow]
    split
    · rw [List.getD_eq_getElem?_getD]
      cases found : staticTable[index.toInt.toNat - 1]? with
      | none => exact ⟨[], rfl, by decide⟩
      | some row => exact staticTable_short row (List.mem_of_getElem? found)
    · exact ⟨[], rfl, by decide⟩
  rcases isShort with ⟨chars, isChars, short⟩
  rw [staticName, isChars, literal_ofList, List.length_map]
  exact short

/-- A header is not much longer than its encoding when it is added to the table. -/
theorem entryLength_le {h : HpackHeader} {staticIdx : Int64} (isIdx : findStatic h.name h.value = staticIdx)
    (nameBytes : List Int64)
    (isName : nameBytes = if (if 0 < staticIdx then staticIdx else 0) = 0 then encodeStr h.name else []) :
    entryLength h ≤ nameBytes.length + (encodeStr h.value).length + 96 := by
  have isValue := length_encodeStr h.value
  have isShort : h.name.length ≤ nameBytes.length + 64 := by
    rcases findStatic_spec h.name h.value with none | ⟨i, isStatic, positive, same⟩
    · rw [isIdx] at none
      rw [isName, none]
      exact Nat.le_trans (length_encodeStr h.name) (Nat.le_add_right _ _)
    · rw [← same]
      exact Nat.le_trans (length_staticName _) (Nat.le_add_left _ _)
  rw [entryLength]
  omega

/-- Encoding keeps the table within its limit, as long as the block fits in memory. -/
theorem Bounded.encode {m : Int64} {headers : List HpackHeader} {dynTable : HpackDynTable}
    (bounded : Bounded m dynTable) (small : m.toInt < 2 ^ 62)
    (short : (encode headers dynTable).1.length < 2 ^ 61) :
    Bounded m (Net.encode headers dynTable).2 := by
  induction headers generalizing dynTable with
  | nil => exact bounded
  | cons h headers ih =>
      rw [Net.encode] at short ⊢
      dsimp only at short ⊢
      split
      · next isStatic =>
          rw [if_pos isStatic, List.length_append] at short
          exact ih bounded (by omega)
      · next notStatic =>
          rw [if_neg notStatic] at short
          simp only [List.length_append] at short
          have isEntry := entryLength_le (h := h) rfl _ rfl
          have within := Int64.le_iff_toInt_le.mp bounded.size
          refine ih (bounded.add fun _ => ?_) (by omega)
          omega

/-- What a connection knows of the peer's settings, and that its table has kept to them. -/
structure Knows (conn : Http2Conn App) : Prop where
  isMax : conn.peerMaxFrameSize = peerMax conn.trace
  small : bits conn.peerMaxFrameSize < 2 ^ 32
  bounded : Bounded 4096 conn.sendDynTable
  table : 4096 ≤ peerTable conn.trace

variable {server : Http2Server App} {conn conn' : Http2Conn App} {stream : Http2Stream}
  {ran : List Event} {answer : List Http2Frame}

theorem applySettings_sendDynTable (conn : Http2Conn App) (payload : List Int64) :
    (applySettings conn payload).sendDynTable = conn.sendDynTable ∧
      (applySettings conn payload).peerMaxFrameSize =
        lastSetting Http2Settings.MAX_FRAME_SIZE (settingsIn payload) conn.peerMaxFrameSize := by
  fun_induction applySettings conn payload with
  | case1 conn b₀ b₁ b₂ b₃ b₄ b₅ payload settingId settingVal first second third ih =>
      have onFirst : first.sendDynTable = conn.sendDynTable ∧
          first.peerMaxFrameSize = conn.peerMaxFrameSize := by
        dsimp only [first]
        split <;> exact ⟨rfl, rfl⟩
      have onSecond : second.sendDynTable = first.sendDynTable ∧
          second.peerMaxFrameSize = first.peerMaxFrameSize := by
        dsimp only [second]
        split <;> exact ⟨rfl, rfl⟩
      have onThird : third.sendDynTable = second.sendDynTable ∧ third.peerMaxFrameSize =
          if settingId = Http2Settings.MAX_FRAME_SIZE then settingVal
          else second.peerMaxFrameSize := by
        dsimp only [third]
        split <;> exact ⟨rfl, rfl⟩
      constructor
      · rw [ih.1, onThird.1, onSecond.1, onFirst.1]
      · rw [ih.2, onThird.2, onSecond.2, onFirst.2]
        rfl
  | case2 conn payload isEnd =>
      refine ⟨rfl, ?_⟩
      rw [settingsIn]
      · rfl
      · exact isEnd

/-- What a frame makes a connection send. -/
structure Sends (server : Http2Server App) (conn : Http2Conn App) (frame : Http2Frame)
    (conn' : Http2Conn App) (ran : List Event) (answer : List Http2Frame) : Prop where
  isRan : ran = [] ∨ ∃ streamId block headers request,
    ran = [Event.ran streamId block headers request]
  trace : conn'.trace = conn.trace ++ [Event.received frame] ++ ran ++ answer.map .sent
  short : (∀ sent ∈ answer, (sent.payload.length : Int) ≤
    (settingAfter Http2Settings.MAX_FRAME_SIZE frame conn.peerMaxFrameSize).toInt) ↔
      AnsweredShort server conn frame
  isMax : conn'.peerMaxFrameSize =
    settingAfter Http2Settings.MAX_FRAME_SIZE frame conn.peerMaxFrameSize
  table : conn'.sendDynTable = conn.sendDynTable ∨ ∃ stream response, Runs conn frame stream ∧
    responseOf server conn stream = some response ∧
      conn'.sendDynTable = (responseBlock server conn response).2

theorem answeredShort_of_quiet (notPing : frame.type ≠ Http2FrameType.PING)
    (notAborts : ¬ Aborts conn frame) (notRuns : ∀ stream, ¬ Runs conn frame stream) :
    AnsweredShort server conn frame where
  ping isPing := absurd isPing notPing
  reset aborts := absurd aborts notAborts
  response stream _ runs := absurd runs (notRuns stream)

theorem not_aborts_of_none (noStream : collected conn frame = none)
    (notData : frame.type ≠ Http2FrameType.DATA) : ¬ Aborts conn frame := by
  rintro (⟨isData, -⟩ | ⟨stream, isCollected, -⟩)
  · exact notData isData
  · rw [noStream] at isCollected
    cases isCollected

theorem not_runs_of_none (noStream : collected conn frame = none) (stream : Http2Stream) :
    ¬ Runs conn frame stream := by
  rintro ⟨isCollected, -⟩
  rw [noStream] at isCollected
  cases isCollected

theorem not_aborts_of_short (isCollected : collected conn frame = some stream)
    (short : overlong frame stream = false) : ¬ Aborts conn frame := by
  rintro (⟨isData, unknown⟩ | ⟨other, isOther, long⟩)
  · cases gathers_of_collected isCollected with
    | headers before fragment isHeaders isStream isFragment =>
        rw [isData] at isHeaders
        exact absurd isHeaders (by decide)
    | continuation before isContinuation known | data before bytes isData known isContent =>
        rw [unknown] at known
        cases known
  · rw [isCollected] at isOther
    cases isOther
    rw [short] at long
    cases long

theorem notPing_of_collected (isCollected : collected conn frame = some stream) :
    frame.type ≠ Http2FrameType.PING := by
  intro isPing
  rw [collected, isPing] at isCollected
  cases isCollected

theorem resetPayload_length (streamId code : Int64) :
    (Http2Frame.new Http2FrameType.RST_STREAM 0 streamId
      (Http2Conn.bigEndian 255 code)).payload.length = 4 :=
  rfl

theorem dispatchStream_sends (step : dispatchStream server conn stream = some conn') :
    ∃ response answer, responseOf server conn stream = some response ∧
      Carries stream.id response answer ∧
      conn'.trace = conn.trace ++
        [Event.ran stream.id stream.headerBlock (decode stream.headerBlock conn.recvDynTable).1
          (requestOf (decode stream.headerBlock conn.recvDynTable).1 stream.body)] ++
        answer.map .sent ∧
      (∀ most : Int, (∀ frame ∈ answer, (frame.payload.length : Int) ≤ most) ↔
        ((responseBlock server conn response).1.length : Int) ≤ most ∧
          (response.body.length : Int) ≤ most) ∧
      conn'.peerMaxFrameSize = conn.peerMaxFrameSize ∧
      conn'.sendDynTable = (responseBlock server conn response).2 := by
  rw [dispatchStream] at step
  rcases Option.bind_eq_some_iff.mp step with ⟨⟨ctx, app⟩, isServed, isResult⟩
  cases isResult
  rcases sendResponse_carries server _ stream.id ctx.response with ⟨answer, carries, isTrace, short⟩
  refine ⟨ctx.response, answer, ?_, carries, isTrace, short, ?_, ?_⟩
  · exact congrArg (Option.map _) isServed
  · change (sendResponse server _ stream.id ctx.response).peerMaxFrameSize = _
    rw [sendResponse]
    dsimp only
    split <;> rfl
  · change (sendResponse server _ stream.id ctx.response).sendDynTable = _
    rw [sendResponse]
    dsimp only
    split <;> rfl

theorem Outcome.sends (outcome : Outcome server conn frame conn')
    (notSettings : frame.type ≠ Http2FrameType.SETTINGS) :
    ∃ ran answer, Sends server conn frame conn' ran answer := by
  have isMax : settingAfter Http2Settings.MAX_FRAME_SIZE frame conn.peerMaxFrameSize =
      conn.peerMaxFrameSize := settingAfter_of_ne notSettings
  cases outcome with
  | ignored isContinuation noStream =>
      refine ⟨[], [], Or.inl rfl, by simp [Http2Conn.see], iff_of_true (List.forall_mem_nil _) ?_, isMax.symm, Or.inl rfl⟩
      apply answeredShort_of_quiet _ (not_aborts_of_none noStream _) (not_runs_of_none noStream)
      all_goals
        rw [isContinuation]
        decide
  | refused isData unknown =>
      have noStream : collected conn frame = none := by
        rw [collected, isData, unknown]
        rfl
      refine ⟨[], [Http2Frame.new Http2FrameType.RST_STREAM 0 frame.streamId
        (Http2Conn.bigEndian 255 Http2Error.STREAM_CLOSED)], Or.inl rfl, ?_, ?_, isMax.symm,
        Or.inl rfl⟩
      · rw [List.append_nil]
        rfl
      · rw [List.forall_mem_singleton, resetPayload_length, isMax]
        constructor
        · intro short
          refine ⟨fun isPing => ?_, fun _ => short, fun stream _ runs => ?_⟩
          · rw [isData] at isPing
            exact absurd isPing (by decide)
          · exact absurd runs (not_runs_of_none noStream stream)
        · exact fun answered => answered.reset (Or.inl ⟨isData, unknown⟩)
  | aborted lastStreamId stream last isCollected long same =>
      refine ⟨[], [Http2Frame.new Http2FrameType.RST_STREAM 0 frame.streamId
        (Http2Conn.bigEndian 255 Http2Error.FRAME_SIZE_ERROR)], Or.inl rfl, ?_, ?_, isMax.symm,
        Or.inl rfl⟩
      · rw [List.append_nil]
        rfl
      · rw [List.forall_mem_singleton, resetPayload_length, isMax]
        constructor
        · intro short
          refine ⟨fun isPing => ?_, fun _ => short, fun other _ runs => ?_⟩
          · exact absurd isPing (notPing_of_collected isCollected)
          · rcases runs with ⟨isOther, isShort, -⟩
            rw [isCollected] at isOther
            cases isOther
            rw [long] at isShort
            cases isShort
        · exact fun answered => answered.reset (Or.inr ⟨stream, isCollected, long⟩)
  | kept lastStreamId stream last isCollected short goesOn same =>
      refine ⟨[], [], Or.inl rfl, ?_, iff_of_true (List.forall_mem_nil _) ?_, isMax.symm, Or.inl rfl⟩
      · simp [Http2Conn.seen, Http2Conn.see, Http2Conn.setStream]
      · apply answeredShort_of_quiet (notPing_of_collected isCollected)
          (not_aborts_of_short isCollected short)
        rintro other ⟨isOther, -, isLast⟩
        rw [isCollected] at isOther
        cases isOther
        rw [goesOn] at isLast
        cases isLast
  | ran lastStreamId stream state isCollected short isLast step =>
      rcases dispatchStream_sends step with
        ⟨response, answer, isResponse, carries, isTrace, isShort, sameMax, isTable⟩
      refine ⟨_, answer, Or.inr ⟨_, _, _, _, rfl⟩, isTrace, ?_, sameMax.trans isMax.symm,
        Or.inr ⟨stream, response, ⟨isCollected, short, isLast⟩, isResponse, isTable⟩⟩
      rw [isMax, isShort]
      constructor
      · intro fits
        refine ⟨fun isPing => ?_, fun aborts => ?_, fun other response' runs isResponse' => ?_⟩
        · exact absurd isPing (notPing_of_collected isCollected)
        · exact absurd aborts (not_aborts_of_short isCollected short)
        · have sameStream := runs.1
          rw [isCollected] at sameStream
          cases sameStream
          rw [show responseOf server conn stream = some response from isResponse] at isResponse'
          cases isResponse'
          exact fits
      · exact fun answered => answered.response stream response ⟨isCollected, short, isLast⟩ isResponse

theorem toInt_setting_nonneg (small : bits value < 2 ^ 32) : 0 ≤ value.toInt := by
  rw [toInt_of_small (by omega)]
  exact Int.natCast_nonneg _

theorem processSettings_sends (isSettings : frame.type = Http2FrameType.SETTINGS)
    (ofBytes : OfBytes frame) (small : bits conn.peerMaxFrameSize < 2 ^ 32) :
    ∃ ran answer, Sends server conn frame
      (processSettings (conn.see (.received frame)) frame) ran answer := by
  have noStream : collected conn frame = none := by
    rw [collected, isSettings]
    rfl
  have answered : AnsweredShort server conn frame := by
    apply answeredShort_of_quiet _ (not_aborts_of_none noStream _) (not_runs_of_none noStream)
    all_goals
      rw [isSettings]
      decide
  have notNegative := toInt_setting_nonneg
    (@settingAfter_small Http2Settings.MAX_FRAME_SIZE _ _ ofBytes small)
  rw [processSettings]
  by_cases isAck : frame.has Http2Flags.ACK
  · have isSame : settingAfter Http2Settings.MAX_FRAME_SIZE frame conn.peerMaxFrameSize =
        conn.peerMaxFrameSize := by
      rw [settingAfter, isAck, if_neg (fun settings => Bool.noConfusion settings.2)]
    rw [if_pos isAck]
    exact ⟨[], [], Or.inl rfl, by simp [Http2Conn.see], iff_of_true (List.forall_mem_nil _) answered, isSame.symm,
      Or.inl rfl⟩
  · have isLast : settingAfter Http2Settings.MAX_FRAME_SIZE frame conn.peerMaxFrameSize =
        lastSetting Http2Settings.MAX_FRAME_SIZE (settingsIn frame.payload) conn.peerMaxFrameSize :=
      if_pos ⟨isSettings, Bool.eq_false_of_not_eq_true isAck⟩
    have same := applySettings_same (conn.see (.received frame)) frame.payload
    have isTable := applySettings_sendDynTable (conn.see (.received frame)) frame.payload
    rw [if_neg isAck]
    refine ⟨[], [Http2Frame.new Http2FrameType.SETTINGS Http2Flags.ACK 0 []], Or.inl rfl, ?_, ?_,
      isTable.2.trans isLast.symm, Or.inl isTable.1⟩
    · rw [List.append_nil]
      exact congrArg (· ++ _) same.1
    · rw [List.forall_mem_singleton]
      exact iff_of_true notNegative answered

theorem handleFrame_sends (ofBytes : OfBytes frame) (small : bits conn.peerMaxFrameSize < 2 ^ 32)
    (step : handleFrame server conn frame = some conn') :
    ∃ ran answer, Sends server conn frame conn' ran answer := by
  cases handleFrame_reaction step with
  | settings isSettings => exact processSettings_sends isSettings ofBytes small
  | content notSettings outcome => exact outcome.sends notSettings
  | ping isPing =>
      have notSettings : frame.type ≠ Http2FrameType.SETTINGS := by
        rw [isPing]
        decide
      have noStream : collected conn frame = none := by
        rw [collected, isPing]
        rfl
      have notData : frame.type ≠ Http2FrameType.DATA := by
        rw [isPing]
        decide
      refine ⟨[], [Http2Frame.new Http2FrameType.PING Http2Flags.ACK 0 frame.payload], Or.inl rfl,
        ?_, ?_, (settingAfter_of_ne notSettings).symm, Or.inl rfl⟩
      · rw [List.append_nil]
        rfl
      · rw [List.forall_mem_singleton, settingAfter_of_ne notSettings]
        constructor
        · intro short
          exact ⟨fun _ => short, fun aborts => absurd aborts (not_aborts_of_none noStream notData),
            fun stream _ runs => absurd runs (not_runs_of_none noStream stream)⟩
        · exact fun answered => answered.ping isPing
  | reset isReset =>
      have notSettings : frame.type ≠ Http2FrameType.SETTINGS := by
        rw [isReset]
        decide
      have noStream : collected conn frame = none := by
        rw [collected, isReset]
        rfl
      have answered : AnsweredShort server conn frame := by
        apply answeredShort_of_quiet _ (not_aborts_of_none noStream _) (not_runs_of_none noStream)
        all_goals
          rw [isReset]
          decide
      have isSame : (processReset (conn.see (.received frame)) frame).trace =
          conn.trace ++ [Event.received frame] ∧
          (processReset (conn.see (.received frame)) frame).peerMaxFrameSize =
            conn.peerMaxFrameSize ∧
          (processReset (conn.see (.received frame)) frame).sendDynTable = conn.sendDynTable := by
        rw [processReset]
        split <;> exact ⟨rfl, rfl, rfl⟩
      refine ⟨[], [], Or.inl rfl, ?_, iff_of_true (List.forall_mem_nil _) answered,
        isSame.2.1.trans (settingAfter_of_ne notSettings).symm, Or.inl isSame.2.2⟩
      rw [isSame.1, List.append_nil, List.map_nil, List.append_nil]
  | other notSettings notHeaders notContinuation notData notPing =>
      have noStream : collected conn frame = none := by
        rw [collected, if_neg notHeaders, if_neg notContinuation, if_neg notData]
      have answered : AnsweredShort server conn frame := answeredShort_of_quiet notPing
        (not_aborts_of_none noStream notData) (not_runs_of_none noStream)
      exact ⟨[], [], Or.inl rfl, by simp [Http2Conn.see], iff_of_true (List.forall_mem_nil _) answered,
        (settingAfter_of_ne notSettings).symm, Or.inl rfl⟩

theorem peerSetting_sends {initial : Int64} (sends : Sends server conn frame conn' ran answer) :
    peerSetting id initial conn'.trace = settingAfter id frame (peerSetting id initial conn.trace) := by
  rw [sends.trace, peerSetting_sent, ← peerSetting_received]
  rcases sends.isRan with rfl | ⟨streamId, block, headers, request, rfl⟩
  · rw [List.append_nil]
  · exact peerSetting_ran _ _ _ _ _ _ _

theorem Sends.short_iff (sends : Sends server conn frame conn' ran answer)
    (isMax : conn.peerMaxFrameSize = peerMax conn.trace) (each : EachAfter Short conn.trace) :
    EachAfter Short conn'.trace ↔ AnsweredShort server conn frame := by
  have isMax' : peerMax (conn.trace ++ [Event.received frame] ++ ran) =
      settingAfter Http2Settings.MAX_FRAME_SIZE frame conn.peerMaxFrameSize := by
    rw [isMax, peerMax, peerMax, ← peerSetting_received]
    rcases sends.isRan with rfl | ⟨streamId, block, headers, request, rfl⟩
    · rw [List.append_nil]
    · exact peerSetting_ran _ _ _ _ _ _ _
  have before : EachAfter Short (conn.trace ++ [Event.received frame] ++ ran) := by
    rcases sends.isRan with rfl | ⟨streamId, block, headers, request, rfl⟩
    · rw [List.append_nil]
      exact (short_received _ _).mpr each
    · exact (short_ran _ _ _ _ _).mpr ((short_received _ _).mpr each)
  rw [sends.trace, short_sent, isMax', sends.short]
  exact and_iff_right before

/-- A frame that leaves the peer's table as large as the server's own. -/
def LeavesTable (frame : Http2Frame) : Prop :=
  4096 ≤ settingAfter Http2Settings.HEADER_TABLE_SIZE frame 4096

theorem Knows.sends (knows : Knows conn) (sends : Sends server conn frame conn' ran answer)
    (ofBytes : OfBytes frame) (answered : AnsweredShort server conn frame)
    (leaves : LeavesTable frame) : Knows conn' := by
  constructor
  · rw [sends.isMax, peerMax, peerSetting_sends sends, knows.isMax]
    rfl
  · rw [sends.isMax]
    exact settingAfter_small ofBytes knows.small
  · rcases sends.table with same | ⟨stream, response, runs, isResponse, isTable⟩
    · rw [same]
      exact knows.bounded
    · have small := knows.small
      have fits := (answered.response stream response runs isResponse).1
      rw [toInt_of_small (by omega)] at fits
      rw [isTable]
      exact knows.bounded.encode (by decide) (by rw [responseBlock] at fits; omega)
  · rw [peerTable, peerSetting_sends sends]
    exact le_settingAfter leaves knows.table

theorem knows_start (app : App) : Knows (Http2Conn.new app).sendServerSettings where
  isMax := rfl
  small := by
    change bits 16384 < 2 ^ 32
    decide
  bounded := Bounded.new (by decide)
  table := by
    change (4096 : Int64) ≤ 4096
    decide

theorem short_start (app : App) : EachAfter Short (Http2Conn.new app).sendServerSettings.trace := by
  refine (short_sent [] [_]).mpr ⟨eachAfter_nil _, ?_⟩
  rw [List.forall_mem_singleton]
  decide

theorem Outcome.dispatches (outcome : Outcome server conn frame conn')
    (runs : Runs conn frame stream) : ∃ lastStreamId state,
      dispatchStream server (conn.seen frame lastStreamId) { stream with state := state } =
        some conn' := by
  rcases runs with ⟨isCollected, short, isLast⟩
  cases outcome with
  | ignored isContinuation noStream =>
      rw [isCollected] at noStream
      cases noStream
  | refused isData unknown =>
      exact absurd (Or.inl ⟨isData, unknown⟩) (not_aborts_of_short isCollected short)
  | aborted lastStreamId other last isOther long same =>
      exact absurd (Or.inr ⟨other, isOther, long⟩) (not_aborts_of_short isCollected short)
  | kept lastStreamId other last isOther short' goesOn same =>
      rw [isCollected] at isOther
      cases isOther
      rw [isLast] at goesOn
      cases goesOn
  | ran lastStreamId other state isOther short' isLast' step =>
      rw [isCollected] at isOther
      cases isOther
      exact ⟨lastStreamId, state, step⟩

theorem Reaction.outcome {server : Http2Server App} {conn conn' : Http2Conn App} {frame : Http2Frame}
    {stream : Http2Stream} (reaction : Reaction server conn frame conn')
    (isCollected : collected conn frame = some stream) : Outcome server conn frame conn' := by
  cases reaction with
  | content notSettings outcome => exact outcome
  | settings isSettings =>
      rw [collected, isSettings] at isCollected
      cases isCollected
  | ping isPing => exact absurd isPing (notPing_of_collected isCollected)
  | reset isReset =>
      rw [collected, isReset] at isCollected
      cases isCollected
  | other notSettings notHeaders notContinuation notData notPing =>
      rw [collected, if_neg notHeaders, if_neg notContinuation, if_neg notData] at isCollected
      cases isCollected

/-- While every frame is answered short and leaves the table, the server honours the peer's
settings; the next frame then sends nothing too long exactly when it is answered short, and the
frames of every response carry it. -/
theorem honours_of_serves {server : Http2Server App} {app : App} {conn : Http2Conn App}
    (serves : Serves server app (fun conn frame =>
      OfBytes frame ∧ AnsweredShort server conn frame ∧ LeavesTable frame) conn) :
    Honours conn ∧
    (∀ frame conn', OfBytes frame → handleFrame server conn frame = some conn' →
      (EachAfter Short conn'.trace ↔ AnsweredShort server conn frame)) ∧
    ∀ frame conn' stream, handleFrame server conn frame = some conn' → Runs conn frame stream →
      ∃ response answer, responseOf server conn stream = some response ∧
        Carries stream.id response answer ∧
        ∃ ran, conn'.trace = conn.trace ++ [Event.received frame] ++ [ran] ++ answer.map .sent := by
  have both : Knows conn ∧ EachAfter Short conn.trace := by
    induction serves with
    | start => exact ⟨knows_start app, short_start app⟩
    | frame serves frame goesOn condition step ih =>
        rcases handleFrame_sends condition.1 ih.1.small step with ⟨ran, answer, sends⟩
        exact ⟨ih.1.sends sends condition.1 condition.2.1 condition.2.2,
          (sends.short_iff ih.1.isMax ih.2).mpr condition.2.1⟩
  rcases both with ⟨knows, short⟩
  refine ⟨⟨short, ?_⟩, ?_, ?_⟩
  · have isSize : conn.sendDynTable.currentSize.toInt = tableLength conn.sendDynTable.entries :=
      knows.bounded.exact
    rw [← isSize]
    exact Int64.le_iff_toInt_le.mp (Int64.le_trans knows.bounded.size knows.table)
  · intro frame conn' ofBytes step
    rcases handleFrame_sends ofBytes knows.small step with ⟨ran, answer, sends⟩
    exact sends.short_iff knows.isMax short
  · intro frame conn' stream step runs
    rcases ((handleFrame_reaction step).outcome runs.1).dispatches runs with
      ⟨lastStreamId, state, isDispatch⟩
    rcases dispatchStream_sends isDispatch with ⟨response, answer, isResponse, carries, isTrace, -⟩
    exact ⟨response, answer, isResponse, carries, _, isTrace⟩

/-- A server whose only page has a given text. -/
def page (body : CString) : Http2Server Unit where
  routes := [⟨literal "GET", literal "/", fun ctx app =>
    some ({ ctx with response := ctx.response.text body }, app)⟩]
  middleware := []
  keys _ := []

theorem responseOf_page (body : CString) (conn : Http2Conn Unit)
    (isNew : conn.recvDynTable = HpackDynTable.new 4096) (isBlock : stream.headerBlock = [130, 132]) :
    responseOf (page body) conn stream = some (HttpResponse.new.text body) := by
  rw [responseOf, isNew, isBlock, decode_wholeRequest]
  rfl

/-- The stream of a whole request. -/
def wholeStream : Http2Stream :=
  ⟨1, .opened, [130, 132], [], true, false⟩

theorem runs_wholeRequest :
    Runs (Http2Conn.new ()).sendServerSettings wholeRequest wholeStream := by
  have isCollected : collected (Http2Conn.new ()).sendServerSettings wholeRequest =
      some wholeStream := rfl
  exact ⟨isCollected, rfl, rfl⟩

theorem honours_of_serves_page : ∃ conn,
    handleFrame (page (literal "Hello")) (Http2Conn.new ()).sendServerSettings wholeRequest =
        some conn ∧ Honours conn ∧
      (∀ frame conn', OfBytes frame → handleFrame (page (literal "Hello")) conn frame = some conn' →
        (EachAfter Short conn'.trace ↔ AnsweredShort (page (literal "Hello")) conn frame)) ∧
      ∀ frame conn' stream, handleFrame (page (literal "Hello")) conn frame = some conn' →
        Runs conn frame stream → ∃ response answer,
          responseOf (page (literal "Hello")) conn stream = some response ∧
          Carries stream.id response answer ∧
          ∃ ran, conn'.trace = conn.trace ++ [.received frame] ++ [ran] ++ answer.map .sent := by
  rcases @wholeRequest_returns _ (page (literal "Hello")) () rfl with ⟨conn, step⟩
  have ofBytes : OfBytes wholeRequest := by decide
  have leaves : LeavesTable wholeRequest := by
    change (4096 : Int64) ≤ 4096
    decide
  have answered : AnsweredShort (page (literal "Hello")) (Http2Conn.new ()).sendServerSettings
      wholeRequest := by
    refine ⟨fun isPing => ?_, fun aborts => ?_, fun stream response runs isResponse => ?_⟩
    · exact absurd isPing (notPing_of_collected runs_wholeRequest.1)
    · exact absurd aborts (not_aborts_of_short runs_wholeRequest.1 runs_wholeRequest.2.1)
    · have isStream := runs.1
      rw [runs_wholeRequest.1] at isStream
      cases isStream
      rw [responseOf_page _ _ rfl rfl] at isResponse
      cases isResponse
      decide
  exact ⟨conn, step, honours_of_serves (.frame .start wholeRequest rfl ⟨ofBytes, answered, leaves⟩ step)⟩

/-- A frame by which the peer gives up its table. -/
def noTable : Http2Frame :=
  Http2Frame.new Http2FrameType.SETTINGS 0 0 [0, 1, 0, 0, 0, 0]

/-- A request for a page that is not there. -/
def missingPage : Http2Frame :=
  Http2Frame.new Http2FrameType.HEADERS (Http2Flags.END_HEADERS ||| Http2Flags.END_STREAM) 1
    [130, 133]

/-- The answer to the peer that gave up its table adds an entry to the server's, and a page of
20000 bytes goes out in one frame. -/
theorem page_notHonoured :
    (∃ conn, Serves counter 0 (fun _ frame => OfBytes frame) conn ∧
      (peerTable conn.trace).toInt = 0 ∧ tableLength conn.sendDynTable.entries = 47 ∧
        ¬ Honours conn) ∧
    ∃ conn, Serves (page (List.replicate 20000 97)) () (fun _ frame => OfBytes frame) conn ∧
      peerMax conn.trace = 16384 ∧ ¬ Honours conn := by
  constructor
  · have isSize : (handleConnection counter (Http2Conn.new 0).sendServerSettings
        [noTable, missingPage]).map (fun conn => ((peerTable conn.trace).toInt,
          tableLength conn.sendDynTable.entries)) = some (0, 47) := by decide +kernel
    rcases Option.map_eq_some_iff.mp isSize with ⟨conn, isRun, same⟩
    rcases handleConnection_cons rfl isRun with ⟨between, first, isRest⟩
    rcases handleConnection_cons rfl isRest with ⟨last, second, isEnd⟩
    cases isEnd
    have isNone := congrArg Prod.fst same
    have isEntry := congrArg Prod.snd same
    dsimp only at isNone isEntry
    refine ⟨conn, .frame (.frame .start noTable rfl ?_ first) missingPage rfl ?_ second, isNone,
      isEntry, fun honours => ?_⟩
    · exact (by decide : OfBytes noTable)
    · exact (by decide : OfBytes missingPage)
    · have isLess := honours.table
      rw [isNone, isEntry] at isLess
      omega
  · rcases @wholeRequest_returns _ (page (List.replicate 20000 97)) () rfl with ⟨conn, step⟩
    have ofBytes : OfBytes wholeRequest := by decide
    have knows := knows_start ()
    rcases handleFrame_sends ofBytes knows.small step with ⟨ran, answer, sends⟩
    refine ⟨conn, .frame .start wholeRequest rfl ofBytes step, ?_, fun honours => ?_⟩
    · rw [peerMax, peerSetting_sends sends]
      rfl
    · have answered := (sends.short_iff knows.isMax (short_start ())).mp honours.short
      have isLong := (answered.response _ _ runs_wholeRequest (responseOf_page _ _ rfl rfl)).2
      change ((List.replicate 20000 97).length : Int) ≤ 16384 at isLong
      rw [List.length_replicate] at isLong
      omega

end Tinox.Net
