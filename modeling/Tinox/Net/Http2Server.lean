import Tinox.Net.Hpack
import Tinox.Net.Routes

/-!
# The HTTP/2 server

One connection of `Http2Server`: its streams, the frames it receives, and what each of them
makes it do.  An access outside a list ends the whole process.
-/

namespace Tinox.Net

open Tinox.Runtime

namespace Http2FrameType

def DATA : Int64 := 0
def HEADERS : Int64 := 1
def RST_STREAM : Int64 := 3
def SETTINGS : Int64 := 4
def PING : Int64 := 6
def GOAWAY : Int64 := 7
def CONTINUATION : Int64 := 9

end Http2FrameType

namespace Http2Flags

def END_STREAM : Int64 := 1
def END_HEADERS : Int64 := 4
def PADDED : Int64 := 8
def PRIORITY : Int64 := 32
def ACK : Int64 := 1

end Http2Flags

namespace Http2Settings

def HEADER_TABLE_SIZE : Int64 := 1
def ENABLE_PUSH : Int64 := 2
def MAX_CONCURRENT_STREAMS : Int64 := 3
def INITIAL_WINDOW_SIZE : Int64 := 4
def MAX_FRAME_SIZE : Int64 := 5

end Http2Settings

namespace Http2Error

def NO_ERROR : Int64 := 0
def STREAM_CLOSED : Int64 := 5
def FRAME_SIZE_ERROR : Int64 := 6

end Http2Error

/-- `Http2Frame::new`. -/
def Http2Frame.new (type flags streamId : Int64) (payload : List Int64) : Http2Frame :=
  ⟨Int64.ofNat payload.length, type, flags, streamId, payload⟩

/-- A flag of a frame is set. -/
def Http2Frame.has (frame : Http2Frame) (flag : Int64) : Bool :=
  frame.flags &&& flag != 0

/-- `HttpRequest`. -/
structure HttpRequest where
  method : CString
  path : CString
  body : CString
  headers : StringMap
  queryString : CString
  params : StringMap

/-- `HttpResponse`. -/
structure HttpResponse where
  statusCode : Int64
  headers : StringMap
  body : CString

/-- `HttpContext`. -/
structure HttpContext where
  request : HttpRequest
  response : HttpResponse

namespace HttpResponse

def new : HttpResponse :=
  ⟨200, StringMap.new, []⟩

/-- `HttpResponse.text`. -/
def text (response : HttpResponse) (body : CString) : HttpResponse :=
  { response with
    headers := response.headers.set (literal "Content-Type") (literal "text/plain; charset=utf-8")
    body := body }

end HttpResponse

/-- A route's handler, over what the application keeps: none is an error that ends it. -/
abbrev Handler (App : Type) := HttpContext → App → Option (HttpContext × App)

/-- `Http2Server`: its routes, its middleware, and the order in which the runtime lists the keys
of a map. -/
structure Http2Server (App : Type) where
  routes : List (Route (Handler App))
  middleware : List (HttpContext → App → Option (Bool × HttpContext × App))
  keys : StringMap → List CString

/-- `Http2Stream.state`. -/
inductive StreamState where
  | opened
  | halfClosedRemote
  | closed
  deriving DecidableEq

/-- `Http2Stream`. -/
structure Http2Stream where
  id : Int64
  state : StreamState
  headerBlock : List Int64
  body : List Int64
  endStream : Bool
  expectingContinuation : Bool

/-- `Http2Stream::new`. -/
def Http2Stream.new (id : Int64) : Http2Stream :=
  ⟨id, .opened, [], [], false, false⟩

/-- What can be seen of a connection: frames that arrive and are sent, and requests that are run
with the header block they came from. -/
inductive Event where
  | received (frame : Http2Frame)
  | sent (frame : Http2Frame)
  | ran (streamId : Int64) (block : List Int64) (headers : List HpackHeader)
      (request : HttpRequest)

/-- `Http2Conn`, with what the application keeps and what has been seen so far. -/
structure Http2Conn (App : Type) where
  streams : Int64 → Option Http2Stream
  recvDynTable : HpackDynTable
  sendDynTable : HpackDynTable
  peerMaxFrameSize : Int64
  peerInitWindowSize : Int64
  lastStreamId : Int64
  app : App
  trace : List Event

variable {App : Type}

namespace Http2Conn

/-- `Http2Conn::new`. -/
def new (app : App) : Http2Conn App :=
  ⟨fun _ => none, HpackDynTable.new 4096, HpackDynTable.new 4096, 16384, 65535, 0, app, []⟩

def see (conn : Http2Conn App) (event : Event) : Http2Conn App :=
  { conn with trace := conn.trace ++ [event] }

def setStream (conn : Http2Conn App) (id : Int64) (stream : Http2Stream) : Http2Conn App :=
  { conn with streams := fun other => if other = id then some stream else conn.streams other }

/-- A stream that is new may be the last one so far. -/
def note (conn : Http2Conn App) (id : Int64) : Http2Conn App :=
  { conn with
    lastStreamId :=
      if (conn.streams id).isNone && conn.lastStreamId < id then id else conn.lastStreamId }

/-- `Http2Server.writeFrame`; the bytes on the wire are those of `writeFrame`. -/
def write (conn : Http2Conn App) (frame : Http2Frame) : Http2Conn App :=
  conn.see (.sent frame)

def sendServerSettings (conn : Http2Conn App) : Http2Conn App :=
  conn.write (Http2Frame.new Http2FrameType.SETTINGS 0 0
    [0, Http2Settings.ENABLE_PUSH, 0, 0, 0, 0,
      0, Http2Settings.MAX_CONCURRENT_STREAMS, 0, 0, 0, 128,
      0, Http2Settings.INITIAL_WINDOW_SIZE, 0, 0, 255, 255])

def sendSettingsAck (conn : Http2Conn App) : Http2Conn App :=
  conn.write (Http2Frame.new Http2FrameType.SETTINGS Http2Flags.ACK 0 [])

def sendPong (conn : Http2Conn App) (pingPayload : List Int64) : Http2Conn App :=
  conn.write (Http2Frame.new Http2FrameType.PING Http2Flags.ACK 0 pingPayload)

/-- The four bytes of a number. -/
def bigEndian (mask value : Int64) : List Int64 :=
  [(value >>> 24) &&& mask, (value >>> 16) &&& 255, (value >>> 8) &&& 255, value &&& 255]

def sendGoaway (conn : Http2Conn App) (errorCode : Int64) : Http2Conn App :=
  conn.write (Http2Frame.new Http2FrameType.GOAWAY 0 0
    (bigEndian 127 conn.lastStreamId ++ bigEndian 255 errorCode))

def sendRstStream (conn : Http2Conn App) (streamId errorCode : Int64) : Http2Conn App :=
  conn.write (Http2Frame.new Http2FrameType.RST_STREAM 0 streamId (bigEndian 255 errorCode))

end Http2Conn

/-- `Http2Server.runMiddleware`. -/
def runMiddleware : List (HttpContext → App → Option (Bool × HttpContext × App)) →
    HttpContext → App → Option (Bool × HttpContext × App)
  | [], ctx, app => some (true, ctx, app)
  | mware :: middleware, ctx, app => do
      let (result, ctx, app) ← mware ctx app
      if result then runMiddleware middleware ctx app else some (false, ctx, app)

/-- `String.toLowerCase`. -/
def toLowerCase (s : CString) : CString :=
  s.map fun c => if 'A'.toUInt8 ≤ c && c ≤ 'Z'.toUInt8 then c + 32 else c

/-- One header of the loop in `dispatchStream`. -/
def takeHeader (request : HttpRequest) (h : HpackHeader) : HttpRequest :=
  if h.name = literal ":method" then { request with method := h.value }
  else if h.name = literal ":path" then
    if '?'.toUInt8 ∈ h.value then
      { request with
        path := h.value.takeWhile (· != '?'.toUInt8)
        queryString := (h.value.dropWhile (· != '?'.toUInt8)).tail }
    else { request with path := h.value }
  else if startsWith h.name colon then request
  else { request with headers := request.headers.set h.name h.value }

/-- The request of a stream. -/
def requestOf (rawHeaders : List HpackHeader) (body : List Int64) : HttpRequest :=
  { rawHeaders.foldl takeHeader ⟨[], [], [], StringMap.new, [], StringMap.new⟩ with
    body := tinoxBytesToString body }

/-- The headers of a response. -/
def responseHeaders (keys : List CString) (response : HttpResponse) : List HpackHeader :=
  ⟨literal ":status", printInteger response.statusCode⟩ ::
    (keys.map fun key => ⟨toLowerCase key, (response.headers key).getD []⟩) ++
    if 0 < response.body.length then
      [⟨literal "content-length", printInteger (Int64.ofNat response.body.length)⟩]
    else []

/-- `Http2Server.sendResponse`. -/
def sendResponse (server : Http2Server App) (conn : Http2Conn App) (streamId : Int64)
    (response : HttpResponse) : Http2Conn App :=
  let headers := responseHeaders (server.keys response.headers) response
  let encodedHeaders := encode headers conn.sendDynTable
  let conn := { conn with sendDynTable := encodedHeaders.2 }
  if response.body.length = 0 then
    conn.write (Http2Frame.new Http2FrameType.HEADERS
      (Http2Flags.END_HEADERS ||| Http2Flags.END_STREAM) streamId encodedHeaders.1)
  else
    let conn := conn.write (Http2Frame.new Http2FrameType.HEADERS Http2Flags.END_HEADERS streamId
      encodedHeaders.1)
    conn.write (Http2Frame.new Http2FrameType.DATA Http2Flags.END_STREAM streamId
      ((List.range response.body.length).map (charCodeAt response.body)))

/-- The middleware and the route of a request, with the answers for neither. -/
def serve (server : Http2Server App) (ctx : HttpContext) (app : App) :
    Option (HttpContext × App) := do
  let (middlewareContinue, ctx, app) ← runMiddleware server.middleware ctx app
  if middlewareContinue then
    match matchRoute server.routes ctx.request.method ctx.request.path with
    | some (handler, params) =>
        handler { ctx with request := { ctx.request with params := params } } app
    | none =>
        some ({ ctx with
          response := { ctx.response with statusCode := 404 }.text (literal "Not Found") }, app)
  else
    some ({ ctx with
      response := { ctx.response with statusCode := 403 }.text (literal "Forbidden") }, app)

/-- `Http2Server.dispatchStream`. -/
def dispatchStream (server : Http2Server App) (conn : Http2Conn App) (stream : Http2Stream) :
    Option (Http2Conn App) := do
  let rawHeaders := decode stream.headerBlock conn.recvDynTable
  let request := requestOf rawHeaders.1 stream.body
  let conn := { conn with recvDynTable := rawHeaders.2 }
  let conn := conn.see (.ran stream.id stream.headerBlock rawHeaders.1 request)
  let (ctx, app) ← serve server ⟨request, HttpResponse.new⟩ conn.app
  let conn := sendResponse server { conn with app := app } stream.id ctx.response
  some (conn.setStream stream.id { stream with state := .closed })

/-- The padding of a frame and where its content starts; the first byte must be there. -/
def padding (frame : Http2Frame) : Option (Int64 × Nat) :=
  if frame.has Http2Flags.PADDED then frame.payload.head?.map (·, 1) else some (0, 0)

/-- The bytes from an offset up to the padding. -/
def content (frame : Http2Frame) (payloadOffset : Nat) (padLength : Int64) : List Int64 :=
  (frame.payload.take (frame.payload.length - padLength.toInt).toNat).drop payloadOffset

/-- The piece of a header block in a HEADERS frame. -/
def headerFragment (frame : Http2Frame) : Option (List Int64) := do
  let (padLength, payloadOffset) ← padding frame
  -- a stream dependency and a weight are skipped
  some (content frame (if frame.has Http2Flags.PRIORITY then payloadOffset + 5 else payloadOffset)
    padLength)

/-- The bytes of a DATA frame. -/
def dataContent (frame : Http2Frame) : Option (List Int64) := do
  let (padLength, payloadOffset) ← padding frame
  some (content frame payloadOffset padLength)

/-- The loop of `processSettings`. -/
def applySettings (conn : Http2Conn App) : List Int64 → Http2Conn App
  | b₀ :: b₁ :: b₂ :: b₃ :: b₄ :: b₅ :: payload =>
      let settingId := (b₀ <<< 8) ||| b₁
      let settingVal := (b₂ <<< 24) ||| (b₃ <<< 16) ||| (b₄ <<< 8) ||| b₅
      let conn :=
        if settingId = Http2Settings.HEADER_TABLE_SIZE then
          { conn with recvDynTable := conn.recvDynTable.setMaxSize settingVal }
        else conn
      let conn :=
        if settingId = Http2Settings.INITIAL_WINDOW_SIZE then
          { conn with peerInitWindowSize := settingVal }
        else conn
      let conn :=
        if settingId = Http2Settings.MAX_FRAME_SIZE then
          { conn with peerMaxFrameSize := settingVal }
        else conn
      applySettings conn payload
  | _ => conn

/-- `Http2Server.processSettings`. -/
def processSettings (conn : Http2Conn App) (frame : Http2Frame) : Http2Conn App :=
  if frame.has Http2Flags.ACK then conn
  else (applySettings conn frame.payload).sendSettingsAck

/-- The cap of a header block. -/
def maxHeaderBlock : Nat := 1048576

/-- The cap of a body. -/
def maxBody : Nat := 16777216

/-- `Http2Server.processHeaders`. -/
def processHeaders (server : Http2Server App) (conn : Http2Conn App) (frame : Http2Frame) :
    Option (Http2Conn App) := do
  let id := frame.streamId
  let stream := (conn.streams id).getD (Http2Stream.new id)
  let conn := conn.note id
  let fragment ← headerFragment frame
  let stream := { stream with headerBlock := stream.headerBlock ++ fragment }
  if maxHeaderBlock < stream.headerBlock.length then
    some ((conn.sendRstStream id Http2Error.FRAME_SIZE_ERROR).setStream id
      { stream with state := .closed })
  else
    let stream := { stream with
      endStream := if frame.has Http2Flags.END_STREAM then true else stream.endStream }
    if frame.has Http2Flags.END_HEADERS then
      let stream := { stream with expectingContinuation := false }
      if stream.endStream then
        dispatchStream server conn { stream with state := .halfClosedRemote }
      else some (conn.setStream id stream)
    else some (conn.setStream id { stream with expectingContinuation := true })

/-- `Http2Server.processContinuation`. -/
def processContinuation (server : Http2Server App) (conn : Http2Conn App) (frame : Http2Frame) :
    Option (Http2Conn App) :=
  let id := frame.streamId
  match conn.streams id with
  | none => some conn
  | some stream =>
      let stream := { stream with headerBlock := stream.headerBlock ++ frame.payload }
      if maxHeaderBlock < stream.headerBlock.length then
        some ((conn.sendRstStream id Http2Error.FRAME_SIZE_ERROR).setStream id
          { stream with state := .closed })
      else if frame.has Http2Flags.END_HEADERS then
        let stream := { stream with expectingContinuation := false }
        if stream.endStream then
          dispatchStream server conn { stream with state := .halfClosedRemote }
        else some (conn.setStream id stream)
      else some (conn.setStream id stream)

/-- `Http2Server.processData`. -/
def processData (server : Http2Server App) (conn : Http2Conn App) (frame : Http2Frame) :
    Option (Http2Conn App) := do
  let id := frame.streamId
  match conn.streams id with
  | none => some (conn.sendRstStream id Http2Error.STREAM_CLOSED)
  | some stream =>
      let data ← dataContent frame
      let stream := { stream with body := stream.body ++ data }
      if maxBody < stream.body.length then
        some ((conn.sendRstStream id Http2Error.FRAME_SIZE_ERROR).setStream id
          { stream with state := .closed })
      else if frame.has Http2Flags.END_STREAM then
        let stream := { stream with endStream := true, state := .halfClosedRemote }
        if stream.expectingContinuation then some (conn.setStream id stream)
        else dispatchStream server conn stream
      else some (conn.setStream id stream)

/-- The branch of the loop in `handleConnection` for RST_STREAM. -/
def processReset (conn : Http2Conn App) (frame : Http2Frame) : Http2Conn App :=
  match conn.streams frame.streamId with
  | none => conn
  | some stream => conn.setStream frame.streamId { stream with state := .closed }

/-- The frames at which the loop of `handleConnection` ends. -/
def Http2Frame.isLast (frame : Http2Frame) : Bool :=
  frame.type = -1 || frame.type = Http2FrameType.GOAWAY

/-- One round of the loop in `handleConnection`, for a frame at which it does not end. -/
def handleFrame (server : Http2Server App) (conn : Http2Conn App) (frame : Http2Frame) :
    Option (Http2Conn App) :=
  let conn := conn.see (.received frame)
  if frame.type = Http2FrameType.SETTINGS then some (processSettings conn frame)
  else if frame.type = Http2FrameType.HEADERS then processHeaders server conn frame
  else if frame.type = Http2FrameType.CONTINUATION then processContinuation server conn frame
  else if frame.type = Http2FrameType.DATA then processData server conn frame
  else if frame.type = Http2FrameType.PING then some (conn.sendPong frame.payload)
  else if frame.type = Http2FrameType.RST_STREAM then some (processReset conn frame)
  else some conn

/-- `Http2Server.handleConnection` after the preface, for the frames that have arrived. -/
def handleConnection (server : Http2Server App) (conn : Http2Conn App) :
    List Http2Frame → Option (Http2Conn App)
  | [] => some conn
  | frame :: frames =>
      if frame.isLast then some ((conn.see (.received frame)).sendGoaway Http2Error.NO_ERROR)
      else do
        let conn ← handleFrame server conn frame
        handleConnection server conn frames

/-- The states that a connection reaches by frames which all meet a condition. -/
inductive Serves (server : Http2Server App) (app : App)
    (meets : Http2Conn App → Http2Frame → Prop) : Http2Conn App → Prop where
  | start : Serves server app meets (Http2Conn.new app).sendServerSettings
  | frame {conn conn' : Http2Conn App} (serves : Serves server app meets conn)
      (frame : Http2Frame) (goesOn : frame.isLast = false) (condition : meets conn frame)
      (step : handleFrame server conn frame = some conn') : Serves server app meets conn'

end Tinox.Net
