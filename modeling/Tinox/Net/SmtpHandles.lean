import Tinox.Formats.Base64
import Tinox.Net.SmtpClient

/-!
# The connection of an SMTP client

A client holds the handle of its connection.  `close` and a `startTls` that fails in the handshake
release the connection and leave the handle in the client, so the next call uses it again.
-/

namespace Tinox.Net.SmtpHandles

open Segments Tinox.Runtime SmtpClient Formats.Base64

/-- What is behind a handle: a connection, and whether it has an `SSL`. -/
structure Endpoint where
  conn : TinoxConn
  ssl : Bool

/-- The connections that have been made; `none` was freed or closed. -/
abbrev Heap := List (Option Endpoint)

/-- A handle that is positive is a place in the heap; `none` is -1. -/
abbrev Handle := Option Nat

/-- The connection behind a handle that has not been released. -/
def live (heap : Heap) (p : Nat) : Option Endpoint :=
  heap[p]?.join

/-- An operation on a connection.  It is left out for -1, and `none` when the handle was released. -/
def onConn {α : Type} (heap : Heap) (handle : Handle) (leftOut : α) (run : TinoxConn → α × TinoxConn) :
    Option (α × Heap) :=
  match handle with
  | none => some (leftOut, heap)
  | some p => do
      let endpoint ← live heap p
      let result := run endpoint.conn
      some (result.1, heap.set p (some { endpoint with conn := result.2 }))

def sendRaw (heap : Heap) (handle : Handle) (data : CString) : Option Heap :=
  (onConn heap handle () fun conn => ((), httpConnSendRaw conn data)).map Prod.snd

def readReplyOn (heap : Heap) (handle : Handle) : Option (CString × Heap) :=
  onConn heap handle [] readReply

/-- `httpConnFromFd` for a socket with its incoming bytes. -/
def httpConnFromFd (heap : Heap) (incoming : Stream) : Handle × Heap :=
  (some heap.length, heap ++ [some ⟨⟨incoming, [], false⟩, false⟩])

/-- `httpConnFromFdTls`: a handshake that fails closes the socket, one that succeeds gives the
incoming bytes of the session. -/
def httpConnFromFdTls (heap : Heap) (handshake : Option Stream) : Handle × Heap :=
  match handshake with
  | none => (none, heap)
  | some incoming => (some heap.length, heap ++ [some ⟨⟨incoming, [], false⟩, true⟩])

/-- `httpConnClose`. -/
def httpConnClose (heap : Heap) (handle : Handle) : Option Heap :=
  match handle with
  | none => some heap
  | some p => do
      let _ ← live heap p
      some (heap.set p none)

/-- `httpConnTakeFd`: whether the socket was handed out; then the connection is freed. -/
def httpConnTakeFd (heap : Heap) (handle : Handle) : Option (Bool × Heap) :=
  match handle with
  | none => some (false, heap)
  | some p => do
      let endpoint ← live heap p
      if endpoint.ssl then some (false, heap) else some (true, heap.set p none)

/-- `SmtpClient`. -/
structure Client where
  conn : Handle
  host : CString
  errorMessage : CString

/-- `SmtpClient.ehlo`. -/
def ehlo (heap : Heap) (client : Client) : Option (Bool × Heap) := do
  let heap ← sendRaw heap client.conn (literal "EHLO localhost\r\n")
  let reply ← readReplyOn heap client.conn
  some (isPositive reply.1, reply.2)

/-- `SmtpClient::finishConnect`. -/
def finishConnect (heap : Heap) (conn : Handle) (host : CString) : Option (Client × Heap) :=
  if conn = none then some (⟨none, host, literal "connect failed"⟩, heap)
  else do
    let greeting ← readReplyOn heap conn
    if !isPositive greeting.1 then
      let heap ← httpConnClose greeting.2 conn
      some (⟨none, host, literal "unexpected greeting: " ++ greeting.1⟩, heap)
    else
      let client : Client := ⟨conn, host, []⟩
      let hello ← ehlo greeting.2 client
      if !hello.1 then
        let heap ← httpConnClose hello.2 conn
        some ({ client with conn := none, errorMessage := literal "EHLO failed" }, heap)
      else some (client, hello.2)

/-- `SmtpClient::connect`; a socket that connects has its incoming bytes. -/
def connect (heap : Heap) (host : CString) (socket : Option Stream) : Option (Client × Heap) :=
  match socket with
  | none => some (⟨none, host, literal "connect failed"⟩, heap)
  | some incoming =>
      let conn := httpConnFromFd heap incoming
      finishConnect conn.2 conn.1 host

/-- `SmtpClient::connectTls`. -/
def connectTls (heap : Heap) (host : CString) (connected : Bool) (handshake : Option Stream) :
    Option (Client × Heap) :=
  if !connected then some (⟨none, host, literal "connect failed (TLS)"⟩, heap)
  else
    let conn := httpConnFromFdTls heap handshake
    if conn.1 = none then some (⟨none, host, literal "TLS handshake failed"⟩, conn.2)
    else finishConnect conn.2 conn.1 host

/-- `SmtpClient.startTls`. -/
def startTls (heap : Heap) (client : Client) (handshake : Option Stream) :
    Option (Bool × Client × Heap) := do
  let heap ← sendRaw heap client.conn (literal "STARTTLS\r\n")
  let reply ← readReplyOn heap client.conn
  if reply.1 ≠ literal "220" then some (false, client, reply.2)
  else
    let fd ← httpConnTakeFd reply.2 client.conn
    if !fd.1 then some (false, client, fd.2)
    else
      let tlsConn := httpConnFromFdTls fd.2 handshake
      if tlsConn.1 = none then some (false, client, tlsConn.2)
      else
        let client := { client with conn := tlsConn.1 }
        let hello ← ehlo tlsConn.2 client
        some (hello.1, client, hello.2)

/-- `SmtpClient.authPlain`. -/
def authPlain (heap : Heap) (client : Client) (user pass : CString) : Option (Bool × Heap) := do
  let encoded := encodeBytes (0 :: user.map byteValue ++ 0 :: pass.map byteValue)
  let heap ← sendRaw heap client.conn (literal "AUTH PLAIN " ++ encoded ++ literal "\r\n")
  let reply ← readReplyOn heap client.conn
  some (reply.1 = literal "235", reply.2)

/-- `SmtpClient.send`: all of its operations are on the client's connection. -/
def sendMail (heap : Heap) (client : Client) (sender : CString) (recipients : List CString)
    (subject body : CString) : Option (Bool × Heap) :=
  onConn heap client.conn false fun conn => send conn sender recipients subject body

/-- `SmtpClient.close`. -/
def close (heap : Heap) (client : Client) : Option Heap :=
  httpConnClose heap client.conn

/-- Calls, with what the network does: whether a socket connects, whether a handshake succeeds, and
the bytes that come in. -/
inductive Call where
  | connect (host : CString) (socket : Option Stream)
  | connectTls (host : CString) (connected : Bool) (handshake : Option Stream)
  | startTls (handshake : Option Stream)
  | authPlain (user pass : CString)
  | send (sender : CString) (recipients : List CString) (subject body : CString)
  | close

/-- The call makes a new client. -/
def Call.Connects : Call → Prop
  | .connect .. | .connectTls .. => True
  | _ => False

structure State where
  heap : Heap
  client : Client

/-- One call; `none` when it uses a handle that was released. -/
def step (s : State) : Call → Option State
  | .connect host socket => (connect s.heap host socket).map fun result => ⟨result.2, result.1⟩
  | .connectTls host connected handshake =>
      (connectTls s.heap host connected handshake).map fun result => ⟨result.2, result.1⟩
  | .startTls handshake =>
      (startTls s.heap s.client handshake).map fun result => ⟨result.2.2, result.2.1⟩
  | .authPlain user pass =>
      (authPlain s.heap s.client user pass).map fun result => { s with heap := result.2 }
  | .send sender recipients subject body =>
      (sendMail s.heap s.client sender recipients subject body).map
        fun result => { s with heap := result.2 }
  | .close => (close s.heap s.client).map fun heap => { s with heap := heap }

/-- Calls one after the other. -/
def run (s : State) : List Call → Option State
  | [] => some s
  | call :: calls => (step s call).bind fun s => run s calls

/-- Before the first call there is no connection. -/
def start : State :=
  ⟨[], ⟨none, [], []⟩⟩

/-- A handle that is -1 or has not been released. -/
def Usable (heap : Heap) (handle : Handle) : Prop :=
  ∀ p, handle = some p → (live heap p).isSome

/-- The call releases the connection of the client, which keeps the handle: `close`, and `startTls`
when the server agrees and the handshake fails. -/
def Releases (s : State) : Call → Prop
  | .close => s.client.conn ≠ none
  | .startTls none => ∃ p endpoint, s.client.conn = some p ∧ live s.heap p = some endpoint ∧
      endpoint.ssl = false ∧
      (readReply (httpConnSendRaw endpoint.conn (literal "STARTTLS\r\n"))).1 = literal "220"
  | _ => False

/-- A call that comes next after one that releases the connection makes a new client. -/
def Careful (s : State) (calls : List Call) : Prop :=
  ∀ before call next after reached, calls = before ++ call :: next :: after →
    run s before = some reached → Releases reached call → next.Connects

variable {heap : Heap} {p : Nat} {endpoint : Endpoint} {α : Type} {handle : Handle}

theorem usable_none (heap : Heap) : Usable heap none :=
  fun _ isSome => absurd isSome (Option.some_ne_none _).symm

theorem usable_some : Usable heap (some p) ↔ (live heap p).isSome :=
  ⟨fun usable => usable p rfl, fun isLive _ isSame => Option.some.inj isSame ▸ isLive⟩

theorem live_set (isLive : live heap p = some endpoint) (next : Option Endpoint) :
    live (heap.set p next) p = next := by
  have isPlace : p < heap.length := by
    by_contra isOutside
    rw [live, List.getElem?_eq_none (Nat.not_lt.mp isOutside)] at isLive
    exact Option.some_ne_none endpoint isLive.symm
  rw [live, List.getElem?_set_self isPlace]
  rfl

theorem live_append (heap : Heap) (endpoint : Endpoint) :
    live (heap ++ [some endpoint]) heap.length = some endpoint := by
  rw [live, List.getElem?_concat_length]
  rfl

theorem onConn_live (isLive : live heap p = some endpoint) (leftOut : α)
    (run : TinoxConn → α × TinoxConn) :
    onConn heap (some p) leftOut run = some ((run endpoint.conn).1,
      heap.set p (some { endpoint with conn := (run endpoint.conn).2 })) := by
  simp only [onConn, isLive, Option.bind_eq_bind, Option.bind_some]

theorem onConn_usable (usable : Usable heap handle) (leftOut : α) (run : TinoxConn → α × TinoxConn) :
    ∃ result, onConn heap handle leftOut run = some result ∧ Usable result.2 handle := by
  cases handle with
  | none => exact ⟨_, rfl, usable_none heap⟩
  | some p =>
      rcases Option.isSome_iff_exists.mp (usable p rfl) with ⟨endpoint, isLive⟩
      refine ⟨_, onConn_live isLive leftOut run, usable_some.mpr ?_⟩
      rw [live_set isLive]
      rfl

theorem onConn_released (released : ¬Usable heap handle) (leftOut : α)
    (run : TinoxConn → α × TinoxConn) : onConn heap handle leftOut run = none := by
  cases handle with
  | none => exact absurd (usable_none heap) released
  | some p =>
      have isReleased : live heap p = none := by
        rw [usable_some, Bool.not_eq_true, Option.isSome_eq_false_iff] at released
        exact Option.isNone_iff_eq_none.mp released
      simp only [onConn, isReleased, Option.bind_eq_bind, Option.bind_none]

theorem sendRaw_usable (usable : Usable heap handle) (data : CString) :
    ∃ next, sendRaw heap handle data = some next ∧ Usable next handle := by
  rcases onConn_usable usable () (fun conn => ((), httpConnSendRaw conn data)) with
    ⟨result, isResult, usable⟩
  exact ⟨result.2, by rw [sendRaw, isResult]; rfl, usable⟩

theorem sendRaw_released (released : ¬Usable heap handle) (data : CString) :
    sendRaw heap handle data = none := by
  rw [sendRaw, onConn_released released]
  rfl

theorem httpConnClose_usable (usable : Usable heap handle) :
    ∃ next, httpConnClose heap handle = some next ∧ (Usable next handle ↔ handle = none) := by
  cases handle with
  | none => exact ⟨heap, rfl, iff_of_true (usable_none heap) rfl⟩
  | some p =>
      rcases Option.isSome_iff_exists.mp (usable p rfl) with ⟨endpoint, isLive⟩
      refine ⟨heap.set p none, by rw [httpConnClose, isLive]; rfl, ?_⟩
      rw [usable_some, live_set isLive]
      exact iff_of_false (fun isSome => Bool.noConfusion isSome) (Option.some_ne_none p)

theorem httpConnClose_released (released : ¬Usable heap handle) :
    httpConnClose heap handle = none := by
  cases handle with
  | none => exact absurd (usable_none heap) released
  | some p =>
      rw [usable_some, Bool.not_eq_true, Option.isSome_eq_false_iff, Option.isNone_iff_eq_none]
        at released
      rw [httpConnClose, released]
      rfl

variable {s : State} {client : Client}

theorem ehlo_usable {heap : Heap} {client : Client} (usable : Usable heap client.conn) :
    ∃ result, ehlo heap client = some result ∧ Usable result.2 client.conn := by
  rcases sendRaw_usable usable (literal "EHLO localhost\r\n") with ⟨sent, isSent, usableSent⟩
  rcases onConn_usable usableSent [] readReply with ⟨reply, isReply, usableReply⟩
  have isRead : readReplyOn sent client.conn = some reply := isReply
  refine ⟨(isPositive reply.1, reply.2), ?_, usableReply⟩
  simp only [ehlo, isSent, isRead, Option.bind_eq_bind, Option.bind_some]

theorem finishConnect_usable {conn : Handle} (usable : Usable heap conn) (host : CString) :
    ∃ result, finishConnect heap conn host = some result ∧ Usable result.2 result.1.conn := by
  rw [finishConnect]
  split
  · exact ⟨_, rfl, usable_none heap⟩
  rcases onConn_usable usable [] readReply with ⟨greeting, isGreeting, usableGreeting⟩
  rw [readReplyOn, isGreeting]
  simp only [Option.bind_eq_bind, Option.bind_some]
  split
  · rcases httpConnClose_usable usableGreeting with ⟨closed, isClosed, -⟩
    exact ⟨_, by rw [isClosed]; rfl, usable_none closed⟩
  rcases @ehlo_usable _ ⟨conn, host, []⟩ usableGreeting with ⟨hello, isHello, usableHello⟩
  rw [isHello, Option.bind_some]
  split
  · rcases httpConnClose_usable usableHello with ⟨closed, isClosed, -⟩
    exact ⟨_, by rw [isClosed]; rfl, usable_none closed⟩
  · exact ⟨_, rfl, usableHello⟩

theorem httpConnFromFd_usable (heap : Heap) (incoming : Stream) :
    Usable (httpConnFromFd heap incoming).2 (httpConnFromFd heap incoming).1 :=
  usable_some.mpr (by rw [httpConnFromFd, live_append]; rfl)

theorem httpConnFromFdTls_usable (heap : Heap) (handshake : Option Stream) :
    Usable (httpConnFromFdTls heap handshake).2 (httpConnFromFdTls heap handshake).1 := by
  cases handshake with
  | none => exact usable_none heap
  | some incoming => exact usable_some.mpr (by rw [httpConnFromFdTls, live_append]; rfl)

/-- The answer to STARTTLS on a connection. -/
def answer (endpoint : Endpoint) : CString × TinoxConn :=
  readReply (httpConnSendRaw endpoint.conn (literal "STARTTLS\r\n"))

theorem releases_startTls (isConn : s.client.conn = some p) (isLive : live s.heap p = some endpoint)
    (handshake : Option Stream) : Releases s (.startTls handshake) ↔
      handshake = none ∧ endpoint.ssl = false ∧ (answer endpoint).1 = literal "220" := by
  cases handshake with
  | some incoming => exact iff_of_false id fun isNone => Option.some_ne_none _ isNone.1
  | none =>
      constructor
      · rintro ⟨q, other, isSame, isOther, plain, agrees⟩
        obtain rfl : p = q := Option.some.inj (isConn.symm.trans isSame)
        obtain rfl : endpoint = other := Option.some.inj (isLive.symm.trans isOther)
        exact ⟨rfl, plain, agrees⟩
      · rintro ⟨-, plain, agrees⟩
        exact ⟨p, endpoint, isConn, isLive, plain, agrees⟩

/-- The heap when the answer has been read. -/
def answered (heap : Heap) (p : Nat) (endpoint : Endpoint) : Heap :=
  (heap.set p (some { endpoint with
    conn := httpConnSendRaw endpoint.conn (literal "STARTTLS\r\n") })).set p
      (some { endpoint with conn := (answer endpoint).2 })

theorem live_answered (isLive : live heap p = some endpoint) :
    live (answered heap p endpoint) p = some { endpoint with conn := (answer endpoint).2 } :=
  live_set (live_set isLive _) _

theorem startTls_live (isConn : client.conn = some p) (isLive : live heap p = some endpoint)
    (handshake : Option Stream) : startTls heap client handshake =
      if (answer endpoint).1 ≠ literal "220" ∨ endpoint.ssl then
        some (false, client, answered heap p endpoint)
      else
        let tlsConn := httpConnFromFdTls ((answered heap p endpoint).set p none) handshake
        if tlsConn.1 = none then some (false, client, tlsConn.2)
        else (ehlo tlsConn.2 { client with conn := tlsConn.1 }).map fun hello =>
          (hello.1, { client with conn := tlsConn.1 }, hello.2) := by
  have isSent : sendRaw heap (some p) (literal "STARTTLS\r\n") = some (heap.set p
      (some { endpoint with conn := httpConnSendRaw endpoint.conn (literal "STARTTLS\r\n") })) := by
    rw [sendRaw, onConn_live isLive]
    rfl
  have isReply := onConn_live (live_set isLive
    (some { endpoint with conn := httpConnSendRaw endpoint.conn (literal "STARTTLS\r\n") }))
    [] readReply
  simp only [startTls, isConn, isSent, readReplyOn, isReply, Option.bind_eq_bind, Option.bind_some]
  change (if (answer endpoint).1 ≠ literal "220" then some (false, client, answered heap p endpoint)
    else (httpConnTakeFd (answered heap p endpoint) (some p)).bind _) = _
  have isTaken : httpConnTakeFd (answered heap p endpoint) (some p) =
      if endpoint.ssl then some (false, answered heap p endpoint)
      else some (true, (answered heap p endpoint).set p none) := by
    rw [httpConnTakeFd, live_answered isLive]
    rfl
  by_cases refused : (answer endpoint).1 ≠ literal "220"
  · rw [if_pos refused, if_pos (Or.inl refused)]
  rw [if_neg refused, isTaken]
  by_cases ssl : endpoint.ssl
  · rw [if_pos ssl, if_pos (Or.inr ssl)]
    rfl
  · rw [if_neg ssl, if_neg (not_or_intro refused ssl), Option.map_eq_bind]
    rfl

/-- A handshake that fails leaves the client with the handle that was given up. -/
theorem startTls_usable (usable : Usable s.heap s.client.conn) (handshake : Option Stream) :
    ∃ result, startTls s.heap s.client handshake = some result ∧
      (Usable result.2.2 result.2.1.conn ↔ ¬Releases s (.startTls handshake)) := by
  rcases isConn : s.client.conn with _ | p
  · refine ⟨(false, s.client, s.heap), ?_, ?_⟩
    · rw [startTls, isConn]
      rfl
    · rw [isConn]
      refine iff_of_true (usable_none s.heap) fun releases => ?_
      cases handshake with
      | none =>
          rcases releases with ⟨p, endpoint, isSome, -⟩
          exact Option.some_ne_none p (isSome.symm.trans isConn)
      | some incoming => exact releases
  rw [isConn] at usable
  rcases Option.isSome_iff_exists.mp (usable p rfl) with ⟨endpoint, isLive⟩
  rw [releases_startTls isConn isLive, startTls_live isConn isLive]
  have isAnswered := live_answered isLive
  split
  case isTrue kept =>
      refine ⟨_, rfl, ?_⟩
      rw [isConn, usable_some, isAnswered]
      refine iff_of_true rfl fun released => ?_
      rcases kept with refused | ssl
      · exact refused released.2.2
      · exact Bool.noConfusion (ssl.symm.trans released.2.1)
  case isFalse taken =>
      rw [not_or, not_not, Bool.not_eq_true] at taken
      cases handshake with
      | none =>
          refine ⟨_, rfl, ?_⟩
          change Usable _ s.client.conn ↔ _
          rw [isConn, usable_some]
          change (live ((answered s.heap p endpoint).set p none) p).isSome ↔ _
          rw [live_set isAnswered]
          exact iff_of_false (fun isSome => Bool.noConfusion isSome)
            (not_not_intro ⟨rfl, taken.2, taken.1⟩)
      | some incoming =>
          let tlsConn := httpConnFromFdTls ((answered s.heap p endpoint).set p none) (some incoming)
          let upgraded : Client := { s.client with conn := tlsConn.1 }
          rcases @ehlo_usable _ upgraded (httpConnFromFdTls_usable _ (some incoming)) with
            ⟨hello, isHello, usableHello⟩
          refine ⟨(hello.1, upgraded, hello.2), ?_, ?_⟩
          · change (ehlo tlsConn.2 upgraded).map (fun hello => (hello.1, upgraded, hello.2)) = _
            rw [isHello]
            rfl
          · exact iff_of_true usableHello fun released => Option.some_ne_none _ released.1

theorem startTls_released (released : ¬Usable heap client.conn) (handshake : Option Stream) :
    startTls heap client handshake = none := by
  rw [startTls, sendRaw_released released]
  rfl

theorem authPlain_usable (usable : Usable heap client.conn) (user pass : CString) :
    ∃ result, authPlain heap client user pass = some result ∧ Usable result.2 client.conn := by
  rcases sendRaw_usable usable (literal "AUTH PLAIN " ++
    encodeBytes (0 :: user.map byteValue ++ 0 :: pass.map byteValue) ++ literal "\r\n") with
    ⟨sent, isSent, usableSent⟩
  rcases onConn_usable usableSent [] readReply with ⟨reply, isReply, usableReply⟩
  have isRead : readReplyOn sent client.conn = some reply := isReply
  refine ⟨(reply.1 = literal "235", reply.2), ?_, usableReply⟩
  simp only [authPlain, isSent, isRead, Option.bind_eq_bind, Option.bind_some]

theorem authPlain_released (released : ¬Usable heap client.conn) (user pass : CString) :
    authPlain heap client user pass = none := by
  simp only [authPlain, sendRaw_released released, Option.bind_eq_bind, Option.bind_none]

variable {call : Call}

theorem step_connects (connects : call.Connects) (s : State) :
    ∃ next, step s call = some next ∧ Usable next.heap next.client.conn := by
  have finished (heap : Heap) (conn : Handle) (host : CString) (usable : Usable heap conn) :
      ∃ next, (finishConnect heap conn host).map (fun result => State.mk result.2 result.1) =
        some next ∧ Usable next.heap next.client.conn := by
    rcases finishConnect_usable usable host with ⟨result, isResult, usableResult⟩
    exact ⟨⟨result.2, result.1⟩, by rw [isResult]; rfl, usableResult⟩
  cases call with
  | connect host socket =>
      cases socket with
      | none => exact ⟨_, rfl, usable_none s.heap⟩
      | some incoming => exact finished _ _ host (httpConnFromFd_usable s.heap incoming)
  | connectTls host connected handshake =>
      rw [step, connectTls]
      split
      · exact ⟨_, rfl, usable_none s.heap⟩
      dsimp only
      split
      · exact ⟨_, rfl, usable_none _⟩
      · exact finished _ _ host (httpConnFromFdTls_usable s.heap handshake)
  | startTls handshake | authPlain user pass | send sender recipients subject body | close =>
      exact connects.elim

theorem step_released (released : ¬Usable s.heap s.client.conn) (isUse : ¬call.Connects) :
    step s call = none := by
  cases call with
  | connect host socket | connectTls host connected handshake => exact absurd trivial isUse
  | startTls handshake => rw [step, startTls_released released, Option.map_none]
  | authPlain user pass => rw [step, authPlain_released released, Option.map_none]
  | send sender recipients subject body =>
      rw [step, sendMail, onConn_released released, Option.map_none]
  | close => rw [step, close, httpConnClose_released released, Option.map_none]

theorem not_releases (connects : call.Connects) (s : State) : ¬Releases s call := by
  cases call <;> first | exact id | exact connects.elim

/-- A call on a connection that can be used goes through, and it can be used afterwards unless the
call releases it. -/
theorem step_usable (usable : Usable s.heap s.client.conn) (call : Call) :
    ∃ next, step s call = some next ∧ (Usable next.heap next.client.conn ↔ ¬Releases s call) := by
  by_cases connects : call.Connects
  · rcases step_connects connects s with ⟨next, isNext, usableNext⟩
    exact ⟨next, isNext, iff_of_true usableNext (not_releases connects s)⟩
  cases call with
  | connect host socket | connectTls host connected handshake => exact absurd trivial connects
  | startTls handshake =>
      rcases startTls_usable usable handshake with ⟨result, isResult, usableResult⟩
      exact ⟨⟨result.2.2, result.2.1⟩, by rw [step, isResult, Option.map_some], usableResult⟩
  | authPlain user pass =>
      rcases authPlain_usable usable user pass with ⟨result, isResult, usableResult⟩
      exact ⟨⟨result.2, s.client⟩, by rw [step, isResult, Option.map_some],
        iff_of_true usableResult id⟩
  | send sender recipients subject body =>
      rcases onConn_usable usable false
        (fun conn => SmtpClient.send conn sender recipients subject body) with
        ⟨result, isResult, usableResult⟩
      exact ⟨⟨result.2, s.client⟩, by rw [step, sendMail, isResult, Option.map_some],
        iff_of_true usableResult id⟩
  | close =>
      rcases httpConnClose_usable usable with ⟨heap, isHeap, usableHeap⟩
      exact ⟨⟨heap, s.client⟩, by rw [step, close, isHeap, Option.map_some],
        usableHeap.trans not_not.symm⟩

theorem careful_cons {next : State} (isNext : step s call = some next) (calls : List Call) :
    Careful s (call :: calls) ↔
      (Releases s call → ∀ second ∈ calls.head?, second.Connects) ∧ Careful next calls := by
  constructor
  · intro careful
    refine ⟨fun releases second isSecond => ?_, ?_⟩
    · rcases List.head?_eq_some_iff.mp isSecond with ⟨after, rfl⟩
      exact careful [] call second after s rfl rfl releases
    · intro before later second after reached isSplit isReached
      refine careful (call :: before) later second after reached (by rw [isSplit]; rfl) ?_
      rw [run, isNext]
      exact isReached
  · rintro ⟨first, others⟩ before later second after reached isSplit isReached releases
    cases before with
    | nil =>
        obtain ⟨rfl, rfl⟩ := List.cons_eq_cons.mp isSplit
        obtain rfl : s = reached := Option.some.inj isReached
        exact first releases second rfl
    | cons head before =>
        obtain ⟨rfl, rfl⟩ := List.cons_eq_cons.mp isSplit
        rw [run, isNext] at isReached
        exact others before later second after reached rfl isReached releases

/-- A run from any state goes through if it is careful, and starts with a new client where the
connection has been released. -/
theorem run_isSome (calls : List Call) (s : State) :
    (run s calls).isSome ↔ (¬Usable s.heap s.client.conn →
      ∀ first ∈ calls.head?, first.Connects) ∧ Careful s calls := by
  induction calls generalizing s with
  | nil =>
      refine iff_of_true rfl ⟨fun _ _ isFirst => (Option.some_ne_none _ isFirst.symm).elim, ?_⟩
      intro before call second after reached isSplit
      exact absurd isSplit.symm (List.append_ne_nil_of_right_ne_nil before (List.cons_ne_nil _ _))
  | cons call calls ih =>
      by_cases usable : Usable s.heap s.client.conn
      · rcases step_usable usable call with ⟨next, isNext, usableNext⟩
        rw [run, isNext, Option.bind_some, ih, careful_cons isNext, usableNext, not_not]
        exact (and_iff_right fun released => absurd usable released).symm
      by_cases connects : call.Connects
      · rcases step_connects connects s with ⟨next, isNext, usableNext⟩
        rw [run, isNext, Option.bind_some, ih, careful_cons isNext]
        constructor
        · rintro ⟨-, careful⟩
          refine ⟨fun _ first isFirst => Option.some.inj isFirst ▸ connects,
            fun releases => absurd releases (not_releases connects s), careful⟩
        · rintro ⟨-, -, careful⟩
          exact ⟨fun released => absurd usableNext released, careful⟩
      · rw [run, step_released usable connects]
        exact iff_of_false (fun isSome => Bool.noConfusion isSome)
          fun first => connects (first.1 usable call rfl)

/-- No operation of a run is on a released connection if and only if the next call after one that
releases the client's connection makes a new client. -/
theorem neverReleased_iff (calls : List Call) : (run start calls).isSome ↔ Careful start calls := by
  rw [run_isSome]
  exact and_iff_right fun released => absurd (usable_none []) released

/-- A server agrees to STARTTLS, the handshake fails, and the client closes. -/
theorem failedHandshake_uses :
    run start [.connect (literal "h") (some [literal "220 h\r\n250 h\r\n220 go\r\n"]),
      .startTls none, .close] = none := by
  with_unfolding_all decide

end Tinox.Net.SmtpHandles
