import Rockets.HttpConnectionHandler

set_option autoImplicit false

/-!
# HTTP connections of the server

A connection with the channel it owns, and what the connection handler does with it. An
operation that throws keeps the changes it has made.
-/
namespace Rockets.Http

def Code.internalServerError : ℕ := 500

/-- Where a future of a response stands; a broken promise throws a `std::future_error`. -/
inductive Future where
  | pending
  | value (response : Response)
  | broken

def Future.isReady : Future → Bool
  | pending => false
  | _ => true

structure CorsRequestHeaders where
  origin : Bytes := []
  accessControlRequestHeaders : Bytes := []
  deriving DecidableEq, Repr

inductive CorsResponseHeader where
  | accessControlAllowHeaders
  | accessControlAllowMethods
  | accessControlAllowOrigin
  deriving DecidableEq, Repr

abbrev CorsResponseHeaders := List (CorsResponseHeader × Bytes)

/-- The logic errors that the connection and its handler throw. A body that is too long to be
reserved is a `std::length_error`, a connection that is not there a `std::out_of_range`. -/
inductive LogicError where
  | bodyTooLong
  | noConnection
  | responseAlreadySet
  | responseNotPrepared
  | headersAlreadySent
  | headersNotSent
  | bodyAlreadySent
  | bodyEmpty
  deriving DecidableEq, Repr

/-- Why an operation does not return; `blocked` is waiting on a future, `undefined` is undefined
behaviour. -/
inductive Stop where
  | logic (e : LogicError)
  | threw (e : Exn)
  | blocked
  | undefined
  deriving DecidableEq, Repr

/-- What was handed to `lws_write`. The headers tell the length of the body. -/
inductive Output where
  | headers (response : Response) (corsHeaders : CorsResponseHeaders)
  | body (body : Text)

/-- What libwebsockets answers while a response is written. -/
structure Writing where
  headersFit : Bool := true
  written : Bool := true
  completed : Bool := false
  deriving DecidableEq, Repr

/-- What the channel reads of a new request. -/
structure Incoming where
  method : Option Method
  path : Bytes
  host : Bytes := []
  query : List (Bytes × Bytes) := []
  contentLength : ℕ := 0
  corsHeaders : CorsRequestHeaders := {}
  deriving DecidableEq, Repr

/-- `writeRequested` is a pending `lws_callback_on_writable`; `sent` is what was written so
far and `called` lists the endpoints whose handlers were invoked. -/
structure Connection where
  request : Request
  contentLength : ℕ
  corsHeaders : CorsRequestHeaders
  corsResponseHeaders : CorsResponseHeaders
  delayedResponse : Option Future := none
  delayedResponseSet : Bool := false
  responseFinalized : Bool := false
  response : Response := {}
  responseHeadersSent : Bool := false
  responseBodySent : Bool := false
  writeRequested : Bool := false
  sent : List Output := []
  called : List (Bytes × Request) := []

/-- Operations on a connection. -/
abbrev Action := EStateM Stop Connection

def canHaveHttpBody (m : Option Method) (contentLength : ℕ) : Bool :=
  (m = some .post || m = some .put || m = some .patch) && contentLength > 0

namespace Incoming

def request (incoming : Incoming) (body : Bytes) : Request where
  method := incoming.method
  path := incoming.path
  origin := incoming.corsHeaders.origin
  host := incoming.host
  query := incoming.query
  body := body

def canHaveHttpBody (incoming : Incoming) : Bool :=
  Http.canHaveHttpBody incoming.method incoming.contentLength

def isCorsPreflightRequest (incoming : Incoming) : Bool :=
  incoming.method = some .options && !incoming.corsHeaders.accessControlRequestHeaders.isEmpty &&
    !incoming.corsHeaders.origin.isEmpty

end Incoming

namespace Connection

/-- `std::string::max_size` of libstdc++. -/
def maxSize : ℕ := 2 ^ 63 - 1

/-- The members as the constructor initialises them. -/
def new (incoming : Incoming) : Connection where
  request := incoming.request []
  contentLength := incoming.contentLength
  corsHeaders := incoming.corsHeaders
  corsResponseHeaders := if incoming.corsHeaders.origin.isEmpty then []
    else [(.accessControlAllowOrigin, ascii "*")]

/-- The constructor, whose body reserves the body of the request. -/
def construct (incoming : Incoming) : Except LogicError Connection :=
  if incoming.contentLength ≤ maxSize then .ok (new incoming) else .error .bodyTooLong

def canHaveHttpBody (c : Connection) : Bool :=
  Http.canHaveHttpBody c.request.method c.contentLength

def isCorsPreflightRequest (c : Connection) : Bool :=
  c.request.method = some .options && !c.corsHeaders.accessControlRequestHeaders.isEmpty &&
    !c.corsHeaders.origin.isEmpty

def isResponseSet (c : Connection) : Bool := c.delayedResponseSet || c.responseFinalized

def isResponseReady (c : Connection) : Bool :=
  c.responseFinalized || c.delayedResponse.any Future.isReady

def appendBody (c : Connection) (data : Bytes) : Connection :=
  { c with request.body := c.request.body ++ data }

def requestWriteCallback : Action Unit := modify fun c => { c with writeRequested := true }

def setResponse (futureResponse : Future) : Action Unit := do
  if (← get).isResponseSet then throw (.logic .responseAlreadySet)
  modify fun c => { c with delayedResponse := some futureResponse, delayedResponseSet := true }

def setCorsResponseHeaders (headers : CorsResponseHeaders) : Action Unit := do
  if (← get).isResponseSet then throw (.logic .responseAlreadySet)
  modify fun c => { c with corsResponseHeaders := headers, responseFinalized := true }

/-- A future without a value reads as an internal server error. -/
def finalizeResponse : Action Unit := do
  match (← get).delayedResponse with
  | some .pending => throw .blocked
  | some (.value response) =>
    modify fun c => { c with delayedResponse := none, response, responseFinalized := true }
  | _ =>
    modify fun c => { c with
      delayedResponse := none
      response := { code := Code.internalServerError }
      responseFinalized := true }

/-- `Channel::writeResponseHeaders`. -/
def channelWriteResponseHeaders (io : Writing) : Action ℤ := do
  if !io.headersFit then return 1
  modify fun c => { c with sent := c.sent ++ [.headers c.response c.corsResponseHeaders] }
  if !io.written then return -1
  if !(← get).response.body.isEmpty then
    -- only one write is allowed, the body is left to another callback
    requestWriteCallback
    return 0
  return if io.completed then -1 else 0

/-- `Channel::writeResponseBody`. -/
def channelWriteResponseBody (io : Writing) : Action ℤ := do
  modify fun c => { c with sent := c.sent ++ [.body c.response.body] }
  if !io.written then return -1
  return if io.completed then -1 else 0

def writeResponseHeaders (io : Writing) : Action ℤ := do
  if (← get).responseHeadersSent then throw (.logic .headersAlreadySent)
  if (← get).responseBodySent then throw (.logic .bodyAlreadySent)
  if !(← get).responseFinalized then finalizeResponse
  modify fun c => { c with responseHeadersSent := true }
  channelWriteResponseHeaders io

def writeResponseBody (io : Writing) : Action ℤ := do
  if !(← get).responseHeadersSent then throw (.logic .headersNotSent)
  if (← get).responseBodySent then throw (.logic .bodyAlreadySent)
  if (← get).response.body.isEmpty then throw (.logic .bodyEmpty)
  modify fun c => { c with responseBodySent := true }
  channelWriteResponseBody io

end Connection

namespace ConnectionHandler
open Connection

section Handler
variable (registry : Registry Future) (filter : Option Filter)

/-- The handler of an endpoint sees the request with the path below the endpoint. -/
def makeResponse : Action Future := do
  match generateResponse registry filter (← get).request with
  | .error e => throw (.threw e)
  | .ok (.ready response) => return .value response
  | .ok (.called endpoint request future) =>
    modify fun c => { c with request, called := c.called ++ [(endpoint, request)] }
    return future
  | .ok .undefined => throw .undefined

/-- With the guard for versions of libwebsockets from 3.1 on. -/
def prepareResponse : Action Unit := do
  let c ← get
  if !c.canHaveHttpBody && c.isResponseSet then return
  setResponse (← makeResponse registry filter)
  requestWriteCallback

def makeCorsPreflightResponseHeaders (path : Bytes) : CorsResponseHeaders :=
  [(.accessControlAllowHeaders, ascii "Content-Type"),
    (.accessControlAllowMethods, registry.getAllowedMethods path),
    (.accessControlAllowOrigin, ascii "*")]

def prepareCorsPreflightResponse : Action Unit := do
  let path := (← get).request.getPathWithoutLeadingSlash
  setCorsResponseHeaders (makeCorsPreflightResponseHeaders registry path)
  requestWriteCallback

def handleNewRequest : Action Unit := do
  let c ← get
  if c.isCorsPreflightRequest then prepareCorsPreflightResponse registry
  else if !c.canHaveHttpBody then prepareResponse registry filter

end Handler

def handleData (data : Bytes) : Action Unit := modify fun c => c.appendBody data

def writeResponse (io : Writing) : Action ℤ := do
  if !(← get).isResponseSet then throw (.logic .responseNotPrepared)
  if !(← get).isResponseReady then
    -- keep polling until the response is ready
    requestWriteCallback
    return 0
  if !(← get).responseHeadersSent then writeResponseHeaders io
  else writeResponseBody io

end ConnectionHandler

/-! ### What the operations do -/

section Specs
open Connection ConnectionHandler
variable {registry : Registry Future} {filter : Option Filter} {c : Connection}

def Connection.prepared (c : Connection) (future : Future) : Connection :=
  { c with delayedResponse := some future, delayedResponseSet := true, writeRequested := true }

theorem run_setResponse (h : c.isResponseSet = false) (future : Future) :
    (do setResponse future; requestWriteCallback : Action Unit).run c =
      .ok () (c.prepared future) := by
  simp [setResponse, requestWriteCallback, EStateM.run_bind, EStateM.run_get, h]
  rfl

theorem run_makeResponse : (makeResponse registry filter).run c =
    match generateResponse registry filter c.request with
    | .error e => .error (.threw e) c
    | .ok (.ready response) => .ok (.value response) c
    | .ok (.called endpoint request future) =>
      .ok future { c with request, called := c.called ++ [(endpoint, request)] }
    | .ok .undefined => .error .undefined c := by
  simp only [makeResponse, EStateM.run_bind, EStateM.run_get]
  rcases generateResponse registry filter c.request with e | (response | ⟨e, r, f⟩ | _) <;> rfl

variable (registry filter) in
theorem prepareResponse_set (hb : c.canHaveHttpBody = false) (hs : c.isResponseSet = true) :
    (prepareResponse registry filter).run c = .ok () c := by
  simp [prepareResponse, EStateM.run_bind, EStateM.run_get, hb, hs]

variable (registry filter) in
theorem prepareResponse_unset (hs : c.isResponseSet = false) :
    (prepareResponse registry filter).run c =
      match generateResponse registry filter c.request with
      | .error e => .error (.threw e) c
      | .ok (.ready response) => .ok () (c.prepared (.value response))
      | .ok (.called endpoint request future) => .ok ()
        ({ c with request, called := c.called ++ [(endpoint, request)] }.prepared future)
      | .ok .undefined => .error .undefined c := by
  have hrun : (prepareResponse registry filter).run c = (do
      let future ← makeResponse registry filter
      setResponse future
      requestWriteCallback : Action Unit).run c := by
    simp [prepareResponse, EStateM.run_bind, EStateM.run_get, hs]
  rw [hrun, EStateM.run_bind, run_makeResponse]
  rcases generateResponse registry filter c.request with e | (response | ⟨e, r, f⟩ | _)
  · rfl
  · exact run_setResponse hs _
  · exact run_setResponse (c := { c with request := r, called := c.called ++ [(e, r)] }) hs f
  · rfl

variable (registry) in
theorem run_prepareCorsPreflightResponse (hs : c.isResponseSet = false) :
    (prepareCorsPreflightResponse registry).run c = .ok ()
      { c with
        corsResponseHeaders := makeCorsPreflightResponseHeaders registry
          c.request.getPathWithoutLeadingSlash
        responseFinalized := true
        writeRequested := true } := by
  simp [prepareCorsPreflightResponse, setCorsResponseHeaders, requestWriteCallback,
    EStateM.run_bind, EStateM.run_get, hs]

/-- What is written, and whether another callback is requested for the rest. -/
def Connection.wrote (c : Connection) (outputs : List Output) (again : Bool) : Connection :=
  { c with sent := c.sent ++ outputs, writeRequested := c.writeRequested || again }

/-- The outputs of one write of headers: the return value tells if it failed. -/
inductive HeadersWritten (c : Connection) (io : Writing) : ℤ → List Output → Bool → Prop where
  | failed {n : ℤ} {outputs : List Output} (hio : (io.headersFit && io.written) = false)
      (hn : n ≠ 0) (ho : outputs = [] ∨ outputs = [.headers c.response c.corsResponseHeaders]) :
      HeadersWritten c io n outputs false
  | written {n : ℤ} :
      HeadersWritten c io n [.headers c.response c.corsResponseHeaders] (!c.response.body.isEmpty)

theorem run_channelWriteResponseHeaders (c : Connection) (io : Writing) : ∃ n outputs again,
    (channelWriteResponseHeaders io).run c = .ok n (c.wrote outputs again) ∧
      HeadersWritten c io n outputs again := by
  have hnone : c.wrote [] false = c := by simp [Connection.wrote]
  cases hfit : io.headersFit with
  | false =>
    refine ⟨1, [], false, ?_, .failed (by simp [hfit]) (by decide) (.inl rfl)⟩
    rw [hnone]
    simp [channelWriteResponseHeaders, hfit]
  | true =>
    cases hwritten : io.written with
    | false =>
      refine ⟨-1, _, false, ?_, .failed (by simp [hwritten]) (by decide) (.inr rfl)⟩
      simp only [channelWriteResponseHeaders, hfit, hwritten, Connection.wrote, Bool.not_true,
        Bool.not_false, Bool.or_false, Bool.false_eq_true, reduceIte]
      rfl
    | true =>
      cases hbody : c.response.body.isEmpty with
      | false =>
        refine ⟨0, _, _, ?_, .written⟩
        simp only [channelWriteResponseHeaders, hfit, hwritten, requestWriteCallback,
          Connection.wrote, Bool.not_true, Bool.false_eq_true, reduceIte]
        simp only [EStateM.run_bind, EStateM.run_get, EStateM.run_modify, hbody, Bool.not_false,
          Bool.or_true, reduceIte]
        rfl
      | true =>
        refine ⟨if io.completed then -1 else 0, _, _, ?_, .written⟩
        simp [channelWriteResponseHeaders, hfit, hwritten, hbody, Connection.wrote,
          EStateM.run_bind, EStateM.run_get]

theorem run_channelWriteResponseBody (c : Connection) (io : Writing) : ∃ n,
    (channelWriteResponseBody io).run c = .ok n (c.wrote [.body c.response.body] false) := by
  cases hwritten : io.written with
  | false =>
    refine ⟨-1, ?_⟩
    simp only [channelWriteResponseBody, hwritten, Connection.wrote, Bool.not_false,
      Bool.or_false, reduceIte]
    rfl
  | true =>
    refine ⟨if io.completed then -1 else 0, ?_⟩
    simp only [channelWriteResponseBody, hwritten, Connection.wrote, Bool.not_true,
      Bool.or_false, Bool.false_eq_true, reduceIte]
    rfl

/-- The response that a future is read as. -/
def Future.response : Future → Response
  | .value response => response
  | _ => { code := Code.internalServerError }

def Connection.finalized (c : Connection) (future : Future) : Connection :=
  { c with delayedResponse := none, response := future.response, responseFinalized := true }

theorem run_finalizeResponse {future : Future} (h : c.delayedResponse = some future)
    (hready : future.isReady = true) : finalizeResponse.run c = .ok () (c.finalized future) := by
  cases future with
  | pending => cases hready
  | value response => simp only [finalizeResponse, EStateM.run_bind, EStateM.run_get, h]; rfl
  | broken => simp only [finalizeResponse, EStateM.run_bind, EStateM.run_get, h]; rfl

theorem writeResponse_waiting (hset : c.delayedResponseSet = true)
    (hfinal : c.responseFinalized = false) {future : Future}
    (hfuture : c.delayedResponse = some future) (hready : future.isReady = false) (io : Writing) :
    (writeResponse io).run c = .ok 0 { c with writeRequested := true } := by
  have hr : c.isResponseReady = false := by simp [isResponseReady, hfinal, hfuture, hready]
  have hs : c.isResponseSet = true := by simp [isResponseSet, hset]
  simp only [writeResponse, EStateM.run_bind, EStateM.run_get, hs, hr, requestWriteCallback,
    Bool.not_true, Bool.not_false, Bool.false_eq_true, reduceIte]
  rfl

/-- The connection once its response is final. -/
def Connection.withResponse (c : Connection) : Connection :=
  if c.responseFinalized then c else
    match c.delayedResponse with
    | some future => c.finalized future
    | none => c

theorem run_writeResponseHeaders (hready : c.isResponseReady = true)
    (hheaders : c.responseHeadersSent = false) (hbody : c.responseBodySent = false)
    (io : Writing) : ∃ n outputs again,
      (writeResponseHeaders io).run c =
        .ok n ({ c.withResponse with responseHeadersSent := true }.wrote outputs again) ∧
      HeadersWritten c.withResponse io n outputs again := by
  obtain ⟨n, outputs, again, hrun, hwritten⟩ :=
    run_channelWriteResponseHeaders { c.withResponse with responseHeadersSent := true } io
  refine ⟨n, outputs, again, ?_, ?_⟩
  · rw [← hrun]
    cases hfinal : c.responseFinalized with
    | true =>
      have hc : c.withResponse = c := if_pos hfinal
      simp [writeResponseHeaders, EStateM.run_bind, EStateM.run_get, hheaders, hbody, hfinal, hc]
    | false =>
      cases hfuture : c.delayedResponse with
      | none => simp [isResponseReady, hfinal, hfuture] at hready
      | some future =>
        have hc : c.withResponse = c.finalized future := by
          simp [withResponse, hfinal, hfuture]
        have hrun := run_finalizeResponse hfuture
          (by simpa [isResponseReady, hfinal, hfuture] using hready)
        simp [writeResponseHeaders, EStateM.run_bind, EStateM.run_get, hheaders, hbody, hfinal,
          hrun, hc]
  · cases hwritten with
    | failed hio hn ho => exact .failed hio hn ho
    | written => exact .written

theorem writeResponse_headers (hset : c.isResponseSet = true) (hready : c.isResponseReady = true)
    (hheaders : c.responseHeadersSent = false) (io : Writing) :
    (writeResponse io).run c = (writeResponseHeaders io).run c := by
  simp [writeResponse, EStateM.run_bind, EStateM.run_get, hset, hready, hheaders]

theorem writeResponse_body (hfinal : c.responseFinalized = true)
    (hheaders : c.responseHeadersSent = true) (hbody : c.responseBodySent = false)
    (hnonempty : c.response.body.isEmpty = false) (io : Writing) : ∃ n,
    (writeResponse io).run c =
      .ok n ({ c with responseBodySent := true }.wrote [.body c.response.body] false) := by
  have hr : c.isResponseReady = true := by simp [isResponseReady, hfinal]
  have hs : c.isResponseSet = true := by simp [isResponseSet, hfinal]
  obtain ⟨n, hrun⟩ := run_channelWriteResponseBody { c with responseBodySent := true } io
  refine ⟨n, ?_⟩
  rw [← hrun]
  simp [writeResponse, writeResponseBody, EStateM.run_bind, EStateM.run_get, hs, hr, hheaders,
    hbody, hnonempty]

end Specs

end Rockets.Http
