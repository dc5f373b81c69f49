import Rockets.HttpChannel
import Rockets.Machine

set_option autoImplicit false

/-!
# The HTTP client

`http::Client::Impl`: the requests by the connection that serves them, in the order of the
`lws` pointers, and `callback_http`. Callbacks of requests run while the client still has
the request, and may start more requests.
-/
namespace Rockets.Http.Client

def connectionFailure : Bytes := ascii "connection failed to start"
def connectionFailed : Bytes := ascii "connection failed"
def clientShutdown : Bytes := ascii "client shutdown"
def unrecognizedCode : Bytes := ascii "HS: Server unrecognized response code"

def isNotARealConnectionError (message : Bytes) : Bool := message == unrecognizedCode

/-- What the headers of a response say; one that is not there is empty. -/
structure Head where
  code : ℕ
  headers : Header → Bytes := fun _ => []
  contentLength : Bytes := []

structure Received where
  code : ℕ := Code.ok
  body : Bytes := []
  headers : List (Header × Bytes) := []

def readResponseHeaders (head : Head) : List (Header × Bytes) :=
  [Header.allow, .contentType, .lastModified, .location, .retryAfter].filterMap fun header =>
    let value := Channel.readHeader (head.headers header)
    if value.isEmpty then none else some (header, value)

/-- The two callbacks are those of the call that made the request. -/
structure RequestHandler where
  call : ℕ
  response : Received := {}
  responseLength : ℕ := 0

namespace RequestHandler

def readResponseHeaders (r : RequestHandler) (head : Head) : RequestHandler :=
  { r with
    response.code := head.code
    response.headers := Client.readResponseHeaders head
    responseLength := Channel.readContentLength head.contentLength }

def appendToResponseBody (r : RequestHandler) (data : Bytes) : RequestHandler :=
  { r with response.body := r.response.body ++ data }

def hasResponseBody (r : RequestHandler) : Bool := r.responseLength > 0

end RequestHandler

inductive Outcome where
  | response (response : Received)
  | error (message : Bytes)

structure Invocation where
  call : ℕ
  outcome : Outcome

/-- The function that waits for a callback of the request of `wsi`: `finishRequest`,
`abortRequest`, or the loop of `abortPendingRequests`. -/
inductive Serving where
  | finish (wsi : ℕ)
  | abort (wsi : ℕ)
  | shutdown (wsi : ℕ)
  deriving DecidableEq, Repr

/-- `starting` counts the error callbacks, one inside the other, that are told that a request
could not be started; `closing` lists the connections closed by the return value of
`callback_http`, until their pointers are given to others. -/
structure State where
  requests : OrderedMap ℕ RequestHandler := ∅
  calls : ℕ := 0
  serving : Option Serving := none
  starting : ℕ := 0
  invocations : List Invocation := []
  closing : List ℕ := []
  isDestroyed : Bool := false
  isUndefined : Bool := false

inductive Reason where
  | established (head : Head)
  | read (data : Bytes)
  | completed
  | closed
  | connectionError (message : Bytes) (head : Head)

/-- A request is given the connection that was started for it, if any. -/
inductive Event where
  | request (wsi : Option ℕ)
  | lws (wsi : ℕ) (reason : Reason)
  | ret
  | destroy

namespace State
variable (s : State)

def invoke (call : ℕ) (outcome : Outcome) : State :=
  { s with invocations := s.invocations ++ [⟨call, outcome⟩] }

def startRequest : Option ℕ → State
  | some wsi =>
    { s with
      requests := s.requests.emplace wsi { call := s.calls }
      calls := s.calls + 1
      closing := s.closing.filter (· != wsi) }
  | none =>
    { s.invoke s.calls (.error connectionFailure) with
      calls := s.calls + 1
      starting := s.starting + 1 }

def finishRequest (wsi : ℕ) : State :=
  match s.requests.find? wsi with
  | none => s
  | some r => { s.invoke r.call (.response r.response) with serving := some (.finish wsi) }

def abortRequest (wsi : ℕ) (reason : Bytes) : State :=
  match s.requests.find? wsi with
  | none => s
  | some r =>
    let message := if reason.isEmpty then connectionFailed
      else connectionFailed ++ ascii ": " ++ reason
    { s.invoke r.call (.error message) with serving := some (.abort wsi) }

/-- One turn of the loop of `abortPendingRequests`; behind the last request the loop ends. -/
def abortPending : Option (ℕ × RequestHandler) → State
  | some (wsi, r) =>
    { s.invoke r.call (.error clientShutdown) with serving := some (.shutdown wsi) }
  | none => { s with requests := ∅, serving := none, isDestroyed := true }

def close (wsi : ℕ) : State := { s with closing := s.closing ++ [wsi] }

/-- `request->readResponseHeaders()`. -/
def readHeaders (wsi : ℕ) (head : Head) : State :=
  match s.requests.find? wsi with
  | none => s
  | some r => { s with requests := s.requests.set wsi (r.readResponseHeaders head) }

def callbackHttp (wsi : ℕ) : Reason → State
  | .established head =>
    let s := s.readHeaders wsi head
    match s.requests.find? wsi with
    | none => s
    | some r => if r.hasResponseBody then s else (s.finishRequest wsi).close wsi
  | .read data => match s.requests.find? wsi with
    | none => { s with isUndefined := true }
    | some r => { s with requests := s.requests.set wsi (r.appendToResponseBody data) }
  | .completed => s.finishRequest wsi
  | .closed => s.abortRequest wsi []
  | .connectionError message head =>
    if isNotARealConnectionError message then
      ((s.readHeaders wsi head).finishRequest wsi).close wsi
    else (s.abortRequest wsi message).close wsi

def ret : State :=
  match s.starting with
  | n + 1 => { s with starting := n }
  | 0 => match s.serving with
    | some (.finish wsi) | some (.abort wsi) =>
      { s with requests := s.requests.erase wsi, serving := none }
    | some (.shutdown wsi) => s.abortPending (s.requests.next? wsi)
    | none => s

def isIdle : Bool := s.serving.isNone && s.starting == 0

/-- A new connection is none that the client has a request for. libwebsockets and the
destructor do not come in between callbacks; the connections that are left are closed when
the destructor has told all requests. -/
def Enabled : Event → Prop
  | .request none => s.isDestroyed = false
  | .request (some wsi) => s.isDestroyed = false ∧ s.requests.contains wsi = false
  | .lws _ _ => s.isIdle = true
  | .destroy => s.isDestroyed = false ∧ s.isIdle = true
  | .ret => s.isIdle = false

instance (e : Event) : Decidable (s.Enabled e) :=
  match e with
  | .request none | .lws _ _ | .ret => inferInstanceAs (Decidable (_ = _))
  | .request (some _) | .destroy => inferInstanceAs (Decidable (_ ∧ _))

def next : Event → State
  | .request wsi => s.startRequest wsi
  | .lws wsi reason => s.callbackHttp wsi reason
  | .ret => s.ret
  | .destroy => s.abortPending s.requests.begin?

def count (call : ℕ) : ℕ := s.invocations.countP fun i => i.call == call

end State

def machine : Machine State Event where
  init := {}
  Enabled := State.Enabled
  next := State.next

instance (s : State) (e : Event) : Decidable (machine.Enabled s e) :=
  inferInstanceAs (Decidable (s.Enabled e))

end Rockets.Http.Client
