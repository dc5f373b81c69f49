import Rockets.HttpLifeCycle

set_option autoImplicit false

/-!
# Futures of handlers

What is written for a future that holds any exception. The exceptions are those of any type;
which of them are a `std::future_error` is a parameter.
-/
namespace Rockets.Http

/-- A `std::future<Response>`. A broken promise stores a `std::future_error`. -/
inductive StdFuture (ε : Type) where
  | invalid
  | pending
  | value (response : Response)
  | exception (e : ε)

namespace StdFuture
variable {ε : Type}

/-- Whether a `get()` will neither block nor find no state. -/
def isReady : StdFuture ε → Bool
  | value _ | exception _ => true
  | _ => false

/-- The future of the other modules, for which every exception is a broken promise. -/
def asFuture : StdFuture ε → Option Future
  | invalid => none
  | pending => some .pending
  | value response => some (.value response)
  | exception _ => some .broken

def response : StdFuture ε → Response
  | value response => response
  | _ => { code := Code.internalServerError }

def holds (p : ε → Bool) : StdFuture ε → Bool
  | exception e => p e
  | _ => false

theorem asFuture_eq_none {f : StdFuture ε} : f.asFuture = none ↔ f = .invalid := by
  cases f <;> simp [asFuture]

end StdFuture

structure Delayed (ε : Type) where
  connection : Connection
  future : StdFuture ε

/-- Why an operation does not return: as before, or by an exception from the future. -/
inductive Escape (ε : Type) where
  | stop (e : Stop)
  | stored (e : ε)

abbrev DelayedAction (ε : Type) := EStateM (Escape ε) (Delayed ε)

namespace Delayed
variable {ε α : Type}

def onConnection (action : Action α) : DelayedAction ε α := fun s =>
  match action s.connection with
  | .ok a connection => .ok a { s with connection }
  | .error e connection => .error (.stop e) { s with connection }

def isResponseReady (s : Delayed ε) : Bool :=
  s.connection.responseFinalized || s.future.isReady

def setFinal (s : Delayed ε) (response : Response) : Delayed ε :=
  { s with connection.response := response, connection.responseFinalized := true }

section Operations
variable (isFutureError : ε → Bool)

/-- `get()` leaves the future without state, also when it throws. -/
def finalizeResponse : DelayedAction ε Unit := do
  match (← get).future with
  | .pending => throw (.stop .blocked)
  | .value response => modify fun s => { s with future := .invalid }.setFinal response
  | .exception e =>
    modify fun s => { s with future := .invalid }
    if !isFutureError e then throw (.stored e)
    modify (·.setFinal { code := Code.internalServerError })
  | .invalid => modify (·.setFinal { code := Code.internalServerError })

def writeResponseHeaders (io : Writing) : DelayedAction ε ℤ := do
  if (← get).connection.responseHeadersSent then throw (.stop (.logic .headersAlreadySent))
  if (← get).connection.responseBodySent then throw (.stop (.logic .bodyAlreadySent))
  if !(← get).connection.responseFinalized then finalizeResponse isFutureError
  modify fun s => { s with connection.responseHeadersSent := true }
  onConnection (Connection.channelWriteResponseHeaders io)

def writeResponse (io : Writing) : DelayedAction ε ℤ := do
  if !(← get).connection.isResponseSet then throw (.stop (.logic .responseNotPrepared))
  if !(← get).isResponseReady then
    onConnection Connection.requestWriteCallback
    return 0
  if !(← get).connection.responseHeadersSent then writeResponseHeaders isFutureError io
  else onConnection (Connection.writeResponseBody io)

end Operations
end Delayed

/-- The writable callbacks for a connection, until it is closed. -/
structure Polling (ε : Type) extends Delayed ε where
  isClosed : Bool := false
  escaped : List (Escape ε) := []

namespace Polling
variable {ε : Type} (isFutureError : ε → Bool)

def write (s : Polling ε) (io : Writing) : Polling ε :=
  match (Delayed.writeResponse isFutureError io).run
      { s.toDelayed with connection.writeRequested := false } with
  | .ok n t => { s with toDelayed := t, isClosed := s.isClosed || n != 0 }
  | .error e t => { s with toDelayed := t, escaped := s.escaped ++ [e] }

def machine (start : Delayed ε) : Machine (Polling ε) Writing where
  init := { start with }
  Enabled s _ := s.isClosed = false ∧ s.connection.writeRequested = true
  next := write isFutureError

end Polling

/-! ### The connection of the other modules -/

namespace Delayed
variable {ε α : Type} {isFutureError : ε → Bool} {s : Delayed ε}

def asConnection (s : Delayed ε) : Connection :=
  { s.connection with delayedResponse := s.future.asFuture }

/-- What an operation does here is what the other one does on the connection. -/
def Agrees (result : EStateM.Result (Escape ε) (Delayed ε) α)
    (plain : EStateM.Result Stop Connection α) : Prop :=
  match result with
  | .ok a t => plain = .ok a t.asConnection
  | .error (.stop e) t => plain = .error e t.asConnection
  | .error (.stored _) _ => False

def Ignores (action : Action α) : Prop := ∀ c f, action { c with delayedResponse := f } =
  match action c with
  | .ok a c' => .ok a { c' with delayedResponse := f }
  | .error e c' => .error e { c' with delayedResponse := f }

theorem ignores_requestWriteCallback : Ignores Connection.requestWriteCallback := fun _ _ => rfl

theorem ignores_channelWriteResponseHeaders (io : Writing) :
    Ignores (Connection.channelWriteResponseHeaders io) := by
  intro c f
  obtain ⟨fit, written, completed⟩ := io
  cases fit
  · rfl
  cases written
  · rfl
  cases hbody : c.response.body.isEmpty <;>
    simp [Connection.channelWriteResponseHeaders, Connection.requestWriteCallback, hbody,
      bind, EStateM.bind, get, getThe, MonadStateOf.get, EStateM.get, modify, modifyGet,
      MonadStateOf.modifyGet, EStateM.modifyGet, pure, EStateM.pure]

theorem ignores_writeResponseBody (io : Writing) :
    Ignores (Connection.writeResponseBody io) := by
  intro c f
  cases hheaders : c.responseHeadersSent <;> cases hbody : c.responseBodySent <;>
    cases hempty : c.response.body.isEmpty <;> cases hwritten : io.written <;>
    simp [Connection.writeResponseBody, Connection.channelWriteResponseBody, hheaders, hbody,
      hempty, hwritten, bind, EStateM.bind, get, getThe, MonadStateOf.get, EStateM.get, modify,
      modifyGet, MonadStateOf.modifyGet, EStateM.modifyGet, pure, EStateM.pure, throw,
      throwThe, MonadExceptOf.throw, EStateM.throw]

theorem agrees_onConnection {action : Action α} (h : Ignores action) (s : Delayed ε) :
    Agrees ((onConnection action).run s) (action.run s.asConnection) := by
  have hf : action s.asConnection = _ := h s.connection s.future.asFuture
  rw [EStateM.run, EStateM.run, hf, onConnection]
  cases action s.connection <;> exact rfl

theorem Agrees.bind {β : Type} {x : DelayedAction ε α} {y : Action α}
    {k : α → DelayedAction ε β} {l : α → Action β} (h : Agrees (x.run s) (y.run s.asConnection))
    (hk : ∀ a t, Agrees ((k a).run t) ((l a).run t.asConnection)) :
    Agrees ((x >>= k).run s) ((y >>= l).run s.asConnection) := by
  rw [EStateM.run_bind, EStateM.run_bind]
  revert h
  rcases x.run s with ⟨a, t⟩ | ⟨_ | _, t⟩
  · intro h
    rw [show y.run s.asConnection = .ok a t.asConnection from h]
    exact hk a t
  · intro h
    rw [show y.run s.asConnection = _ from h]
    exact rfl
  · exact False.elim

theorem agrees_finalizeResponse (h : s.future.holds (!isFutureError ·) = false) :
    Agrees ((finalizeResponse isFutureError).run s)
      (Connection.finalizeResponse.run s.asConnection) := by
  obtain ⟨c, future⟩ := s
  cases future with
  | invalid => exact rfl
  | pending => exact rfl
  | value response => exact rfl
  | exception e =>
    have he : isFutureError e = true := by simpa [StdFuture.holds] using h
    simp only [finalizeResponse, EStateM.run_bind, EStateM.run_get, EStateM.run_modify, he,
      Bool.not_true, Bool.false_eq_true, reduceIte]
    exact rfl

theorem agrees_writeResponseHeaders (h : s.future.holds (!isFutureError ·) = false)
    (io : Writing) : Agrees ((writeResponseHeaders isFutureError io).run s)
      ((Connection.writeResponseHeaders io).run s.asConnection) := by
  have hrest (t : Delayed ε) : Agrees
      ((do
        modify fun s => { s with connection.responseHeadersSent := true }
        onConnection (Connection.channelWriteResponseHeaders io) : DelayedAction ε ℤ).run t)
      ((do
        modify fun c => { c with responseHeadersSent := true }
        Connection.channelWriteResponseHeaders io : Action ℤ).run t.asConnection) :=
    agrees_onConnection (ignores_channelWriteResponseHeaders io)
      { t with connection.responseHeadersSent := true }
  have hheaders : s.asConnection.responseHeadersSent = s.connection.responseHeadersSent := rfl
  have hbody : s.asConnection.responseBodySent = s.connection.responseBodySent := rfl
  have hfinal : s.asConnection.responseFinalized = s.connection.responseFinalized := rfl
  cases h₁ : s.connection.responseHeadersSent with
  | true => simp [writeResponseHeaders, Connection.writeResponseHeaders, EStateM.run_bind,
      EStateM.run_get, hheaders, h₁, Agrees]
  | false =>
    cases h₂ : s.connection.responseBodySent with
    | true => simp [writeResponseHeaders, Connection.writeResponseHeaders, EStateM.run_bind,
        EStateM.run_get, hheaders, hbody, h₁, h₂, Agrees]
    | false =>
      cases h₃ : s.connection.responseFinalized with
      | true =>
        have hrun := hrest s
        simp only [EStateM.run_bind] at hrun
        simpa [writeResponseHeaders, Connection.writeResponseHeaders, EStateM.run_bind,
          EStateM.run_get, hheaders, hbody, hfinal, h₁, h₂, h₃] using hrun
      | false =>
        have hrun := Agrees.bind (agrees_finalizeResponse h) fun _ t => hrest t
        simp only [EStateM.run_bind] at hrun
        simpa [writeResponseHeaders, Connection.writeResponseHeaders, EStateM.run_bind,
          EStateM.run_get, hheaders, hbody, hfinal, h₁, h₂, h₃] using hrun

/-- What is done with a future whose exception, if any, is a `std::future_error`. -/
theorem agrees_writeResponse (h : s.future.holds (!isFutureError ·) = false) (io : Writing) :
    Agrees ((writeResponse isFutureError io).run s)
      ((ConnectionHandler.writeResponse io).run s.asConnection) := by
  have hset : s.asConnection.isResponseSet = s.connection.isResponseSet := rfl
  have hready : s.asConnection.isResponseReady = s.isResponseReady := by
    obtain ⟨c, future⟩ := s
    cases future <;> rfl
  have hheaders : s.asConnection.responseHeadersSent = s.connection.responseHeadersSent := rfl
  cases h₁ : s.connection.isResponseSet with
  | false => simp [writeResponse, ConnectionHandler.writeResponse, EStateM.run_bind,
      EStateM.run_get, hset, h₁, Agrees]
  | true =>
    cases h₂ : s.isResponseReady with
    | false =>
      have hrun := Agrees.bind (k := fun _ => pure 0) (l := fun _ => pure 0)
        (agrees_onConnection ignores_requestWriteCallback s) fun _ t => (rfl : Agrees (.ok (0 : ℤ) t) _)
      simpa [writeResponse, ConnectionHandler.writeResponse, EStateM.run_bind,
        EStateM.run_get, hset, hready, h₁, h₂] using hrun
    | true =>
      cases h₃ : s.connection.responseHeadersSent with
      | false =>
        simpa [writeResponse, ConnectionHandler.writeResponse, EStateM.run_bind,
          EStateM.run_get, hset, hready, hheaders, h₁, h₂, h₃] using agrees_writeResponseHeaders h io
      | true =>
        simpa [writeResponse, ConnectionHandler.writeResponse, EStateM.run_bind,
          EStateM.run_get, hset, hready, hheaders, h₁, h₂, h₃]
          using agrees_onConnection (ignores_writeResponseBody io) s

end Delayed

/-! ### Runs of the writable callbacks -/

def answer (response : Response) (cors : CorsResponseHeaders) : List Output :=
  .headers response cors :: if response.body.isEmpty then [] else [.body response.body]

structure Connection.Awaiting (c : Connection) : Prop where
  set : c.delayedResponseSet = true
  final : c.responseFinalized = false
  headers : c.responseHeadersSent = false
  body : c.responseBodySent = false
  requested : c.writeRequested = true
  sent : c.sent = []

theorem Stage.awaiting {isClosed : Bool} {c : Connection} (h : Stage isClosed c)
    (hfuture : c.delayedResponse ≠ none) : c.Awaiting := by
  cases h with
  | waiting _ set final _ headers body requested sent =>
    exact ⟨set, final, headers, body, requested, sent⟩
  | unset _ future => exact absurd future hfuture
  | preflight _ future => exact absurd future hfuture
  | body _ future => exact absurd future hfuture
  | done _ future => exact absurd future hfuture

theorem awaiting_of_run {incoming : Incoming} {registry : Registry Future} {filter : Option Filter}
    {es : List Exchange.Event} {s : Exchange}
    (h : (Exchange.machine incoming registry filter).Run es s)
    (hfuture : s.connection.delayedResponse ≠ none) : s.connection.Awaiting :=
  (Exchange.invariant_run h).stage.awaiting hfuture

def Writing.succeeds (io : Writing) : Bool := io.headersFit && io.written

section Runs
variable {ε : Type} {isFutureError : ε → Bool}

/-- One response is sent for the future that is ready at the start, in two callbacks at most,
and after the first of them the future is not looked at again. -/
structure AnsweredOnce (start : Delayed ε) (es : List Writing) (s : Polling ε) : Prop where
  quiet : s.escaped = []
  few : es.length ≤ 2
  final : es ≠ [] → s.connection.responseFinalized = true ∧ s.future = .invalid
  soFar : s.connection.sent <+: answer start.future.response start.connection.corsResponseHeaders
  whole : es.all Writing.succeeds = true → s.connection.writeRequested = false →
    s.connection.sent = answer start.future.response start.connection.corsResponseHeaders

inductive Polling.Stage (start : Delayed ε) : List Writing → Polling ε → Prop where
  | fresh : Stage start [] { start with }
  | body {io : Writing} {s : Polling ε} (quiet : s.escaped = [])
      (final : s.asConnection.responseFinalized = true)
      (future : s.asConnection.delayedResponse = none)
      (headers : s.asConnection.responseHeadersSent = true)
      (unsent : s.asConnection.responseBodySent = false)
      (response : s.asConnection.response = start.future.response)
      (nonempty : start.future.response.body.isEmpty = false)
      (requested : s.asConnection.writeRequested = true)
      (sent : s.asConnection.sent =
        [.headers start.future.response start.connection.corsResponseHeaders]) : Stage start [io] s
  | done {es : List Writing} {s : Polling ε} (quiet : s.escaped = []) (some : es ≠ [])
      (few : es.length ≤ 2) (final : s.asConnection.responseFinalized = true)
      (future : s.asConnection.delayedResponse = none)
      (idle : s.asConnection.writeRequested = false)
      (soFar : s.asConnection.sent <+:
        answer start.future.response start.connection.corsResponseHeaders)
      (whole : es.all Writing.succeeds = true → s.asConnection.sent =
        answer start.future.response start.connection.corsResponseHeaders) : Stage start es s

namespace Polling
variable {start : Delayed ε} {s : Polling ε} {es : List Writing} {io : Writing}

theorem write_of_run (h : s.future.holds (!isFutureError ·) = false) {n : ℤ} {c : Connection}
    (hrun : (ConnectionHandler.writeResponse io).run
      { s.asConnection with writeRequested := false } = .ok n c) :
    ∃ t : Delayed ε, t.asConnection = c ∧
      s.write isFutureError io = { s with toDelayed := t, isClosed := s.isClosed || n != 0 } := by
  have hagrees : Delayed.Agrees _ ((ConnectionHandler.writeResponse io).run
      { s.asConnection with writeRequested := false }) :=
    Delayed.agrees_writeResponse
      (s := { s.toDelayed with connection.writeRequested := false }) h io
  rw [hrun] at hagrees
  unfold write
  revert hagrees
  rcases (Delayed.writeResponse isFutureError io).run _ with ⟨m, t⟩ | ⟨_ | _, t⟩
  · intro hagrees
    obtain ⟨rfl, rfl⟩ : n = m ∧ c = t.asConnection := by
      simpa only [Delayed.Agrees, EStateM.Result.ok.injEq] using hagrees
    exact ⟨t, rfl, rfl⟩
  · exact fun hagrees => nomatch hagrees
  · exact False.elim

theorem Stage.answered (hstart : start.asConnection.Awaiting) (h : Stage start es s) :
    AnsweredOnce start es s := by
  cases h with
  | fresh =>
    have hsent : start.connection.sent = [] := hstart.sent
    refine ⟨rfl, by simp, by simp, ?_, fun _ hidle => ?_⟩
    · rw [show _ = [] from hsent]
      exact List.nil_prefix
    · exact absurd (hstart.requested.symm.trans hidle) (by decide)
  | body quiet final future _ _ _ _ requested sent =>
    refine ⟨quiet, by simp, fun _ => ⟨final, StdFuture.asFuture_eq_none.mp future⟩, ?_,
      fun _ hidle => ?_⟩
    · rw [show s.connection.sent = _ from sent]
      exact ⟨_, rfl⟩
    · exact absurd (requested.symm.trans hidle) (by decide)
  | done quiet _ few final future _ soFar whole =>
    exact ⟨quiet, few, fun _ => ⟨final, StdFuture.asFuture_eq_none.mp future⟩, soFar,
      fun hall _ => whole hall⟩

end Polling

end Runs

end Rockets.Http
