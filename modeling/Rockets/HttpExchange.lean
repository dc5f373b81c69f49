import Rockets.HttpConnection
import Rockets.Machine

set_option autoImplicit false

/-!
# An HTTP exchange

`callback_http` for one request, from the callback for the new request on. Which callback
comes next is up to libwebsockets and the peer, when the future of a handler becomes ready
is up to the application.
-/
namespace Rockets.Http
open Connection ConnectionHandler

/-- The connection and what its request has brought: the chunks of the body, whether the
body is complete, and the exceptions that went through `callback_http`. -/
structure Exchange where
  connection : Connection
  chunks : List Bytes := []
  isCompleted : Bool := false
  isClosed : Bool := false
  stops : List Stop := []

namespace Exchange

inductive Event where
  | body (data : Bytes)
  | bodyCompletion
  | writeable (io : Writing)
  | fulfil (response : Response)
  | abandon
  | close

section Model
variable (incoming : Incoming) (registry : Registry Future) (filter : Option Filter)

def perform (s : Exchange) (action : Action Unit) : Exchange :=
  match action.run s.connection with
  | .ok _ connection => { s with connection }
  | .error e connection => { s with connection, stops := s.stops ++ [e] }

/-- libwebsockets closes the connection if the callback returns another value than 0. -/
def write (s : Exchange) (io : Writing) : Exchange :=
  match (writeResponse io).run { s.connection with writeRequested := false } with
  | .ok n connection => { s with connection, isClosed := s.isClosed || n != 0 }
  | .error e connection => { s with connection, stops := s.stops ++ [e] }

def resolve (s : Exchange) (future : Future) : Exchange :=
  { s with connection.delayedResponse := some future }

def start : Exchange :=
  ({ connection := .new incoming } : Exchange).perform (handleNewRequest registry filter)

def isPending (s : Exchange) : Bool := s.connection.delayedResponse.any (!·.isReady)

/-- The body ends with its completion; a writable callback comes only if one was requested;
a promise is kept or broken once. -/
def Enabled (s : Exchange) : Event → Prop
  | .body _ | .bodyCompletion => s.isClosed = false ∧ s.isCompleted = false
  | .writeable _ => s.isClosed = false ∧ s.connection.writeRequested = true
  | .fulfil _ | .abandon => s.isClosed = false ∧ s.isPending = true
  | .close => s.isClosed = false

instance (s : Exchange) (e : Event) : Decidable (s.Enabled e) :=
  match e with
  | .body _ | .bodyCompletion | .writeable _ | .fulfil _ | .abandon =>
    inferInstanceAs (Decidable (_ ∧ _))
  | .close => inferInstanceAs (Decidable (_ = _))

def next (s : Exchange) : Event → Exchange
  | .body data => { s with chunks := s.chunks ++ [data] }.perform (handleData data)
  | .bodyCompletion => { s with isCompleted := true }.perform (prepareResponse registry filter)
  | .writeable io => s.write io
  | .fulfil response => s.resolve (.value response)
  | .abandon => s.resolve .broken
  | .close => { s with isClosed := true }

def machine : Machine Exchange Event where
  init := start incoming registry filter
  Enabled := Enabled
  next := next registry filter

/-- The request a handler is to be given: with the body, if it can have one. -/
def shown (s : Exchange) : Request :=
  incoming.request (if incoming.canHaveHttpBody then s.chunks.flatten else [])

def isReceived (s : Exchange) : Bool := !incoming.canHaveHttpBody || s.isCompleted

end Model
end Exchange

/-- The whole response was written. -/
def IsAnswer (sent : List Output) : Prop :=
  ∃ response cors, response.body.isEmpty = true ∧ sent = [.headers response cors] ∨
    response.body.isEmpty = false ∧ sent = [.headers response cors, .body response.body]

/-- The headers were written once, if at all, and after them the body, if there is one. -/
def IsAnswerSoFar (sent : List Output) : Prop :=
  sent = [] ∨ ∃ response cors, sent = [.headers response cors] ∨
    response.body.isEmpty = false ∧ sent = [.headers response cors, .body response.body]

/-- How far the response is; `done` also stands for one given up by an error in writing. -/
inductive Stage (isClosed : Bool) (c : Connection) : Prop where
  | unset (set : c.isResponseSet = false) (future : c.delayedResponse = none)
      (headers : c.responseHeadersSent = false) (body : c.responseBodySent = false)
      (idle : c.writeRequested = false) (sent : c.sent = [])
  | waiting (future : Future) (set : c.delayedResponseSet = true)
      (final : c.responseFinalized = false) (delayed : c.delayedResponse = some future)
      (headers : c.responseHeadersSent = false) (body : c.responseBodySent = false)
      (requested : c.writeRequested = true) (sent : c.sent = [])
  | preflight (final : c.responseFinalized = true) (future : c.delayedResponse = none)
      (headers : c.responseHeadersSent = false) (body : c.responseBodySent = false)
      (requested : c.writeRequested = true) (sent : c.sent = [])
  | body (final : c.responseFinalized = true) (future : c.delayedResponse = none)
      (headers : c.responseHeadersSent = true) (unsent : c.responseBodySent = false)
      (nonempty : c.response.body.isEmpty = false) (requested : c.writeRequested = true)
      (sent : c.sent = [.headers c.response c.corsResponseHeaders])
  | done (final : c.responseFinalized = true) (future : c.delayedResponse = none)
      (idle : c.writeRequested = false)
      (sent : IsAnswer c.sent ∨ isClosed = true ∧ IsAnswerSoFar c.sent)

namespace Stage
variable {isClosed : Bool} {c : Connection}

theorem isAnswer_soFar {sent : List Output} (h : IsAnswer sent) : IsAnswerSoFar sent := by
  obtain ⟨response, cors, ⟨-, h⟩ | h⟩ := h
  · exact .inr ⟨response, cors, .inl h⟩
  · exact .inr ⟨response, cors, .inr h⟩

theorem soFar (h : Stage isClosed c) : IsAnswerSoFar c.sent := by
  cases h with
  | unset _ _ _ _ _ sent => exact .inl sent
  | waiting _ _ _ _ _ _ _ sent => exact .inl sent
  | preflight _ _ _ _ _ sent => exact .inl sent
  | body _ _ _ _ _ _ sent => exact .inr ⟨_, _, .inl sent⟩
  | done _ _ _ sent => exact sent.elim isAnswer_soFar And.right

theorem close (h : Stage isClosed c) : Stage true c := by
  cases h with
  | unset set future headers body idle sent => exact .unset set future headers body idle sent
  | waiting f set final delayed headers body requested sent =>
    exact .waiting f set final delayed headers body requested sent
  | preflight final future headers body requested sent =>
    exact .preflight final future headers body requested sent
  | body final future headers unsent nonempty requested sent =>
    exact .body final future headers unsent nonempty requested sent
  | done final future idle sent => exact .done final future idle (sent.imp_right fun h => ⟨rfl, h.2⟩)

theorem requested (h : Stage false c) (hset : c.isResponseSet = true) :
    c.writeRequested = true ∨ IsAnswer c.sent := by
  cases h with
  | unset set => simp [set] at hset
  | waiting _ _ _ _ _ _ requested => exact .inl requested
  | preflight _ _ _ _ requested => exact .inl requested
  | body _ _ _ _ _ requested => exact .inl requested
  | done _ _ _ sent => exact .inr (sent.resolve_right (by simp))

end Stage

/-- What writing leaves alone. -/
structure SameRequest (c c' : Connection) : Prop where
  request : c'.request = c.request
  contentLength : c'.contentLength = c.contentLength
  called : c'.called = c.called

theorem SameRequest.withResponse (c : Connection) : SameRequest c c.withResponse := by
  unfold Connection.withResponse
  split_ifs
  · exact ⟨rfl, rfl, rfl⟩
  · split <;> exact ⟨rfl, rfl, rfl⟩

section Write
variable {s : Exchange} {io : Writing}

theorem withResponse_spec {c : Connection} (hready : c.isResponseReady = true)
    (hfuture : c.responseFinalized = true → c.delayedResponse = none) :
    c.withResponse.responseFinalized = true ∧ c.withResponse.delayedResponse = none ∧
      c.withResponse.responseBodySent = c.responseBodySent ∧
      c.withResponse.writeRequested = c.writeRequested ∧ c.withResponse.sent = c.sent := by
  unfold Connection.withResponse
  split_ifs with hfinal
  · exact ⟨hfinal, hfuture hfinal, rfl, rfl, rfl⟩
  · cases h : c.delayedResponse with
    | none => simp [isResponseReady, hfinal, h] at hready
    | some future => exact ⟨rfl, rfl, rfl, rfl, rfl⟩

theorem stage_of_headersWritten {c : Connection} (isClosed : Bool) {n : ℤ} {outputs : List Output}
    {again : Bool} (hfinal : c.responseFinalized = true) (hfuture : c.delayedResponse = none)
    (hbody : c.responseBodySent = false) (hidle : c.writeRequested = false) (hsent : c.sent = [])
    (h : HeadersWritten c io n outputs again) :
    Stage (isClosed || n != 0) ({ c with responseHeadersSent := true }.wrote outputs again) := by
  cases h with
  | failed _ hn ho =>
    have hclosed : (isClosed || n != 0) = true := by simp [hn]
    refine .done hfinal hfuture ?_ (.inr ⟨hclosed, ?_⟩)
    · simp [Connection.wrote, hidle]
    · rcases ho with rfl | rfl
      · exact .inl (by simp [Connection.wrote, hsent])
      · refine .inr ⟨c.response, c.corsResponseHeaders, .inl ?_⟩
        simp only [Connection.wrote, hsent, List.nil_append]
  | written =>
    cases hempty : c.response.body.isEmpty with
    | false =>
      refine .body hfinal hfuture rfl hbody hempty ?_ ?_
      · simp [Connection.wrote]
      · simp [Connection.wrote, hsent]
    | true =>
      refine .done hfinal hfuture ?_ (.inl ⟨c.response, c.corsResponseHeaders, .inl ⟨hempty, ?_⟩⟩)
      · simp [Connection.wrote, hidle]
      · simp [Connection.wrote, hsent]

/-- A writable callback goes on with the response, and writes only if it is ready. -/
structure WriteStep (s t : Exchange) : Prop where
  chunks : t.chunks = s.chunks
  isCompleted : t.isCompleted = s.isCompleted
  stops : t.stops = s.stops
  same : SameRequest s.connection t.connection
  stage : Stage t.isClosed t.connection
  set : t.connection.isResponseSet = true
  ready : t.connection.sent ≠ s.connection.sent → s.connection.isResponseReady = true

theorem write_of_run {n : ℤ} {c : Connection}
    (h : (writeResponse io).run { s.connection with writeRequested := false } = .ok n c) :
    s.write io = { s with connection := c, isClosed := s.isClosed || n != 0 } := by
  simp only [Exchange.write, h]

theorem writeStep_headers (hset : s.connection.isResponseSet = true)
    (hready : s.connection.isResponseReady = true)
    (hfuture : s.connection.responseFinalized = true → s.connection.delayedResponse = none)
    (hheaders : s.connection.responseHeadersSent = false)
    (hbody : s.connection.responseBodySent = false) (hsent : s.connection.sent = []) :
    WriteStep s (s.write io) := by
  set c : Connection := { s.connection with writeRequested := false } with hc
  obtain ⟨n, outputs, again, hrun, hwritten⟩ :=
    run_writeResponseHeaders (c := c) hready hheaders hbody io
  rw [← writeResponse_headers (c := c) hset hready hheaders io] at hrun
  rw [write_of_run hrun]
  obtain ⟨hfinal, hnone, hbody', hidle, hsent'⟩ := withResponse_spec (c := c) hready hfuture
  have hstage := stage_of_headersWritten s.isClosed hfinal hnone
    (hbody'.trans hbody) hidle (hsent'.trans hsent) hwritten
  have hsame := SameRequest.withResponse c
  exact
    { chunks := rfl
      isCompleted := rfl
      stops := rfl
      same := ⟨hsame.request, hsame.contentLength, hsame.called⟩
      stage := hstage
      set := by simp [isResponseSet, Connection.wrote, hfinal]
      ready := fun _ => hready }

variable (io) in
theorem writeStep_of_stage (h : Stage s.isClosed s.connection)
    (hw : s.connection.writeRequested = true) : WriteStep s (s.write io) := by
  cases h with
  | unset _ _ _ _ idle => simp [idle] at hw
  | waiting future set final delayed headers body requested sent =>
    cases hready : future.isReady with
    | true =>
      exact writeStep_headers (by simp [isResponseSet, set])
        (by simp [isResponseReady, final, delayed, hready]) (by simp [final]) headers body sent
    | false =>
      have hrun := writeResponse_waiting (c := { s.connection with writeRequested := false }) set
        final delayed hready io
      rw [write_of_run hrun]
      exact
        { chunks := rfl
          isCompleted := rfl
          stops := rfl
          same := ⟨rfl, rfl, rfl⟩
          stage := .waiting future set final delayed headers body rfl sent
          set := by simp [isResponseSet, set]
          ready := fun hne => absurd rfl hne }
  | preflight final future headers body requested sent =>
    exact writeStep_headers (by simp [isResponseSet, final]) (by simp [isResponseReady, final])
      (fun _ => future) headers body sent
  | body final future headers unsent nonempty requested sent =>
    obtain ⟨n, hrun⟩ := writeResponse_body
      (c := { s.connection with writeRequested := false }) final headers unsent nonempty io
    rw [write_of_run hrun]
    exact
      { chunks := rfl
        isCompleted := rfl
        stops := rfl
        same := ⟨rfl, rfl, rfl⟩
        stage := by
          refine .done final future rfl (.inl ⟨s.connection.response,
            s.connection.corsResponseHeaders, .inr ⟨nonempty, ?_⟩⟩)
          simp only [Connection.wrote, sent, List.cons_append, List.nil_append]
        set := by simp [isResponseSet, Connection.wrote, final]
        ready := fun _ => by simp [isResponseReady, final] }
  | done _ _ idle => simp [idle] at hw

end Write

end Rockets.Http
