import Rockets.HttpExchange
import Rockets.HttpRouting

set_option autoImplicit false

/-!
# The life cycle of an HTTP connection

The handler of an endpoint is invoked once its request is complete, the response is written
once it is ready, and none of the errors that guard the order of the operations is ever met.
-/
namespace Rockets.Http
open Connection ConnectionHandler

/-- The invocations of handlers that come with a response. -/
def callsOf : Except Exn (Generated Future) → List (Bytes × Request)
  | .ok (.called endpoint request _) => [(endpoint, request)]
  | _ => []

/-- No response comes of it. -/
def Fails (r : Except Exn (Generated Future)) : Prop := (∃ e, r = .error e) ∨ r = .ok .undefined

/-- A method that no registry has a slot for is only looked up if the filter lets it pass. -/
def Incoming.isServed (incoming : Incoming) (filter : Option Filter) : Bool :=
  incoming.method.isSome || filter.any fun f => f.filter (incoming.request [])

section Generate
variable {registry : Registry Future} {filter : Option Filter} {request : Request}
  {incoming : Incoming}

theorem callsOf_fails {r : Except Exn (Generated Future)} (h : Fails r) : callsOf r = [] := by
  rcases h with ⟨e, rfl⟩ | rfl <;> rfl

/-- Only the reply that describes the registry can fail to be made, and a method without a slot
be looked up, neither of which calls anybody. -/
theorem callsOf_of_fails (body : Bytes) (h : Fails (generateResponse registry filter request)) :
    callsOf (generateResponse registry filter { request with body }) = [] := by
  rcases generateResponse_cases registry filter { request with body } with
    ⟨-, -, e, he⟩ | ⟨response, hok⟩ | ⟨m, endpoint, rest, func, hm, -, hno, -⟩ | ⟨-, -, hok⟩
  · exact callsOf_fails (.inl ⟨e, he⟩)
  · rw [hok]
    rfl
  · rcases generateResponse_cases registry filter request with
      ⟨hget, hp, -⟩ | ⟨response, hok⟩ | ⟨m', endpoint', rest', func', -, -, -, hok⟩ | ⟨hnone, -⟩
    · exact absurd ⟨hget, hp⟩ hno
    · rcases h with ⟨e, he⟩ | he <;> cases hok.symm.trans he
    · rcases h with ⟨e, he⟩ | he <;> cases hok.symm.trans he
    · cases hnone.symm.trans hm
  · exact callsOf_fails (.inr hok)

theorem method_of_undefined (h : generateResponse registry filter request = .ok .undefined) :
    request.method = none ∧ (filter.filter fun f => f.filter request) = none := by
  rcases generateResponse_cases registry filter request with
    ⟨-, -, e, he⟩ | ⟨response, hok⟩ | ⟨m, endpoint, rest, func, -, -, -, hok⟩ | ⟨hm, hf, -⟩
  · cases h.symm.trans he
  · cases h.symm.trans hok
  · cases h.symm.trans hok
  · exact ⟨hm, hf⟩

theorem isServed_eq_false_iff (registry : Registry Future) : incoming.isServed filter = false ↔
    generateResponse registry filter (incoming.request []) = .ok .undefined := by
  constructor
  · intro h
    obtain ⟨hm, hf⟩ := Bool.or_eq_false_iff.mp h
    have hnone : (incoming.request []).method = none := by
      change incoming.method = none
      simpa using hm
    have hfilter : (filter.filter fun f => f.filter (incoming.request [])) = none := by
      cases filter with
      | none => rfl
      | some f => simpa [Option.filter] using hf
    simp only [generateResponse, hfilter, hnone]
    rfl
  · intro h
    obtain ⟨hm, hf⟩ := method_of_undefined h
    have hm : incoming.method = none := hm
    cases filter with
    | none => simp [Incoming.isServed, hm]
    | some f => simpa [Incoming.isServed, hm, Option.filter] using hf

/-- The request is shown to the handler with all but the path as it came. -/
theorem called_request {endpoint : Bytes} {r : Request} {future : Future}
    (h : generateResponse registry filter request = .ok (.called endpoint r future)) :
    r.method = request.method ∧ r.body = request.body := by
  rcases generateResponse_cases registry filter request with
    ⟨-, -, e, he⟩ | ⟨response, hok⟩ | ⟨m, endpoint', rest, func, -, -, -, hok⟩ | ⟨-, -, hok⟩
  · simp [he] at h
  · simp [hok] at h
  · rw [hok] at h
    obtain ⟨-, rfl, -⟩ := Generated.called.inj (Except.ok.inj h)
    exact ⟨rfl, rfl⟩
  · simp [hok] at h

end Generate

namespace Exchange

section Invariant
variable (incoming : Incoming) (registry : Registry Future) (filter : Option Filter)

/-- The handlers that the request has brought into action once it is received. -/
def calls (s : Exchange) : List (Bytes × Request) :=
  if incoming.isCorsPreflightRequest || !s.isReceived incoming then []
  else callsOf (generateResponse registry filter (s.shown incoming))

/-- What holds of an exchange throughout. -/
structure Invariant (s : Exchange) : Prop where
  method : s.connection.request.method = incoming.method
  contentLength : s.connection.contentLength = incoming.contentLength
  stage : Stage s.isClosed s.connection
  stops : ∀ e ∈ s.stops, (∃ x, e = .threw x) ∨ e = .undefined ∧ incoming.isServed filter = false
  unset : s.connection.isResponseSet = false → incoming.isCorsPreflightRequest = false ∧
    s.connection.request = incoming.request s.chunks.flatten ∧
    (s.isReceived incoming = true → Fails (generateResponse registry filter (s.shown incoming)))
  received : s.connection.isResponseSet = true → s.isReceived incoming = true
  called : s.connection.called = s.calls incoming registry filter

variable {incoming registry filter} {s : Exchange}

/-- A request with such a method has no body. -/
theorem isServed_of_fails (hm : incoming.method = none)
    (h : Fails (generateResponse registry filter (s.shown incoming))) :
    incoming.isServed filter = false := by
  have hshown : s.shown incoming = incoming.request [] := by
    simp [shown, Incoming.canHaveHttpBody, Http.canHaveHttpBody, hm]
  rw [hshown] at h
  rcases h with ⟨e, he⟩ | h
  · rcases generateResponse_cases registry filter (incoming.request []) with
      ⟨hget, -⟩ | ⟨response, hok⟩ | ⟨m, endpoint, rest, func, -, -, -, hok⟩ | ⟨-, -, hok⟩
    · cases hm.symm.trans hget
    · cases he.symm.trans hok
    · cases he.symm.trans hok
    · cases he.symm.trans hok
  · exact (isServed_eq_false_iff registry).mpr h

/-- An exception before the response is set leaves the exchange as it is. -/
theorem invariant_stopped (hmethod : s.connection.request.method = incoming.method)
    (hlength : s.connection.contentLength = incoming.contentLength)
    (hset : s.connection.isResponseSet = false) (hstage : Stage s.isClosed s.connection)
    (hstops : ∀ e ∈ s.stops, (∃ x, e = .threw x) ∨
      e = .undefined ∧ incoming.isServed filter = false)
    (hcors : incoming.isCorsPreflightRequest = false)
    (hrequest : s.connection.request = incoming.request s.chunks.flatten)
    (hcalled : s.connection.called = [])
    (hfails : Fails (generateResponse registry filter (s.shown incoming))) {stop : Stop}
    (hstop : (∃ x, stop = .threw x) ∨ stop = .undefined ∧ incoming.isServed filter = false) :
    Invariant incoming registry filter { s with stops := s.stops ++ [stop] } where
  method := hmethod
  contentLength := hlength
  stage := hstage
  stops := by
    intro e he
    rcases List.mem_append.mp he with he | he
    · exact hstops e he
    · rw [List.mem_singleton.mp he]
      exact hstop
  unset := fun _ => ⟨hcors, hrequest, fun _ => hfails⟩
  received := by simp [hset]
  called := by
    have hcalls : calls incoming registry filter { s with stops := s.stops ++ [stop] } =
        s.calls incoming registry filter := rfl
    rw [hcalls, calls, callsOf_fails hfails, ite_self]
    exact hcalled

theorem prepare_spec (hmethod : s.connection.request.method = incoming.method)
    (hlength : s.connection.contentLength = incoming.contentLength)
    (hset : s.connection.isResponseSet = false) (hstage : Stage s.isClosed s.connection)
    (hstops : ∀ e ∈ s.stops, (∃ x, e = .threw x) ∨
      e = .undefined ∧ incoming.isServed filter = false)
    (hcors : incoming.isCorsPreflightRequest = false)
    (hrequest : s.connection.request = incoming.request s.chunks.flatten)
    (hreceived : s.isReceived incoming = true) (hcalled : s.connection.called = [])
    (hshown : s.connection.request = s.shown incoming ∨
      Fails (generateResponse registry filter (s.shown incoming))) :
    Invariant incoming registry filter (s.perform (prepareResponse registry filter)) := by
  obtain ⟨hheaders, hbody, hsent⟩ : s.connection.responseHeadersSent = false ∧
      s.connection.responseBodySent = false ∧ s.connection.sent = [] := by
    cases hstage with
    | unset _ _ headers body _ sent => exact ⟨headers, body, sent⟩
    | waiting _ set => simp [isResponseSet, set] at hset
    | preflight final => simp [isResponseSet, final] at hset
    | body final => simp [isResponseSet, final] at hset
    | done final => simp [isResponseSet, final] at hset
  have hfinal : s.connection.responseFinalized = false := by
    simp only [isResponseSet, Bool.or_eq_false_iff] at hset
    exact hset.2
  -- the calls are those of the request as the connection has it
  have hcalls : s.calls incoming registry filter =
      callsOf (generateResponse registry filter s.connection.request) := by
    have hdone : s.calls incoming registry filter =
        callsOf (generateResponse registry filter (s.shown incoming)) := by
      simp [calls, hcors, hreceived]
    rw [hdone]
    rcases hshown with h | hfails
    · rw [h]
    · rw [callsOf_fails hfails, hrequest]
      exact (callsOf_of_fails s.chunks.flatten hfails).symm
  unfold perform
  rw [prepareResponse_unset registry filter hset]
  cases hgen : generateResponse registry filter s.connection.request with
  | error e =>
    have hfails := hshown.elim (fun h => h ▸ .inl ⟨e, hgen⟩) id
    exact invariant_stopped hmethod hlength hset hstage hstops hcors hrequest hcalled hfails
      (.inl ⟨e, rfl⟩)
  | ok generated =>
    rw [hgen] at hcalls
    cases generated with
    | undefined =>
      have hfails := hshown.elim (fun h => h ▸ .inr hgen) id
      exact invariant_stopped hmethod hlength hset hstage hstops hcors hrequest hcalled hfails
        (.inr ⟨rfl, isServed_of_fails (hmethod ▸ (method_of_undefined hgen).1) hfails⟩)
    | ready response =>
      exact
        { method := hmethod
          contentLength := hlength
          stage := .waiting _ rfl hfinal rfl hheaders hbody rfl hsent
          stops := hstops
          unset := by simp [isResponseSet, Connection.prepared]
          received := fun _ => hreceived
          called := hcalled.trans hcalls.symm }
    | called endpoint request future =>
      exact
        { method := (called_request hgen).1.trans hmethod
          contentLength := hlength
          stage := .waiting _ rfl hfinal rfl hheaders hbody rfl hsent
          stops := hstops
          unset := by simp [isResponseSet, Connection.prepared]
          received := fun _ => hreceived
          called := by
            have happend : s.connection.called ++ [(endpoint, request)] =
                s.calls incoming registry filter := by
              rw [hcalled, hcalls]
              rfl
            exact happend }

theorem new_unset (incoming : Incoming) : Stage false (.new incoming) :=
  .unset rfl rfl rfl rfl rfl rfl

theorem not_canHaveHttpBody_of_preflight (h : incoming.isCorsPreflightRequest = true) :
    incoming.canHaveHttpBody = false := by
  simp only [Incoming.isCorsPreflightRequest, Bool.and_eq_true, decide_eq_true_eq] at h
  simp [Incoming.canHaveHttpBody, Http.canHaveHttpBody, h.1.1]

theorem handleNewRequest_preflight (h : incoming.isCorsPreflightRequest = true) :
    (handleNewRequest registry filter).run (.new incoming) =
      (prepareCorsPreflightResponse registry).run (.new incoming) := by
  have h : (Connection.new incoming).isCorsPreflightRequest = true := h
  simp [handleNewRequest, EStateM.run_bind, EStateM.run_get, h]

variable (registry filter) in
theorem handleNewRequest_other (h : incoming.isCorsPreflightRequest = false) :
    (handleNewRequest registry filter).run (.new incoming) =
      if incoming.canHaveHttpBody then .ok () (.new incoming)
      else (prepareResponse registry filter).run (.new incoming) := by
  have h : (Connection.new incoming).isCorsPreflightRequest = false := h
  have hb : (Connection.new incoming).canHaveHttpBody = incoming.canHaveHttpBody := rfl
  simp only [handleNewRequest, EStateM.run_bind, EStateM.run_get, h, hb]
  cases incoming.canHaveHttpBody <;> rfl

theorem perform_congr {x y : Action Unit} (h : x.run s.connection = y.run s.connection) :
    s.perform x = s.perform y := by
  simp only [perform, h]

theorem invariant_start : Invariant incoming registry filter (start incoming registry filter) := by
  have hshown : ({ connection := .new incoming } : Exchange).shown incoming =
      incoming.request [] := by
    simp [shown]
  unfold start
  cases hcors : incoming.isCorsPreflightRequest with
  | true =>
    have hperform : perform { connection := .new incoming } (handleNewRequest registry filter) =
        perform { connection := .new incoming } (prepareCorsPreflightResponse registry) :=
      perform_congr (handleNewRequest_preflight hcors)
    have hrun := run_prepareCorsPreflightResponse registry (c := Connection.new incoming) rfl
    rw [hperform]
    simp only [perform, hrun]
    exact
      { method := rfl
        contentLength := rfl
        stage := .preflight rfl rfl rfl rfl rfl rfl
        stops := by simp
        unset := by simp [isResponseSet]
        received := fun _ => by simp [isReceived, not_canHaveHttpBody_of_preflight hcors]
        called := by simp [calls, hcors, Connection.new] }
  | false =>
    have hrun := handleNewRequest_other registry filter hcors
    cases hb : incoming.canHaveHttpBody with
    | true =>
      rw [if_pos hb] at hrun
      simp only [perform, hrun]
      exact
        { method := rfl
          contentLength := rfl
          stage := new_unset incoming
          stops := by simp
          unset := fun _ => ⟨hcors, rfl, by simp [isReceived, hb]⟩
          received := fun h => by cases h
          called := by simp [calls, isReceived, hb, Connection.new] }
    | false =>
      rw [if_neg (by simp [hb])] at hrun
      have hperform : perform { connection := .new incoming } (handleNewRequest registry filter) =
          perform { connection := .new incoming } (prepareResponse registry filter) :=
        perform_congr hrun
      rw [hperform]
      exact prepare_spec rfl rfl rfl (new_unset incoming) (by simp) hcors rfl
        (by simp [isReceived, hb]) rfl (.inl hshown.symm)

theorem canHaveHttpBody_eq (h : Invariant incoming registry filter s) :
    s.connection.canHaveHttpBody = incoming.canHaveHttpBody := by
  rw [Connection.canHaveHttpBody, h.method, h.contentLength]
  rfl

theorem invariant_body (h : Invariant incoming registry filter s) (hopen : s.isCompleted = false)
    (data : Bytes) : Invariant incoming registry filter (s.next registry filter (.body data)) := by
  have hcalls : (s.next registry filter (.body data)).calls incoming registry filter =
      s.calls incoming registry filter := by
    unfold calls
    cases hb : incoming.canHaveHttpBody with
    | true => simp [isReceived, hb, next, perform, handleData, hopen]
    | false => simp [isReceived, shown, hb, next, perform, handleData, hopen]
  have hstage : Stage s.isClosed (s.connection.appendBody data) := by
    cases h.stage with
    | unset set future headers body idle sent => exact .unset set future headers body idle sent
    | waiting f set final delayed headers body requested sent =>
      exact .waiting f set final delayed headers body requested sent
    | preflight final future headers body requested sent =>
      exact .preflight final future headers body requested sent
    | body final future headers unsent nonempty requested sent =>
      exact .body final future headers unsent nonempty requested sent
    | done final future idle sent => exact .done final future idle sent
  exact
    { method := h.method
      contentLength := h.contentLength
      stage := hstage
      stops := h.stops
      unset := by
        intro hset
        obtain ⟨hcors, hrequest, hfails⟩ := h.unset hset
        refine ⟨hcors, ?_, fun hreceived => ?_⟩
        · have happend : { s.connection.request with
              body := s.connection.request.body ++ data } =
              incoming.request (s.chunks ++ [data]).flatten := by
            rw [hrequest, List.flatten_append, List.flatten_singleton]
            rfl
          exact happend
        · -- only the error of a request without a body is left over
          have hb : incoming.canHaveHttpBody = false := by
            have h : (!incoming.canHaveHttpBody || s.isCompleted) = true := hreceived
            simpa [hopen] using h
          have hshown : (s.next registry filter (.body data)).shown incoming =
              s.shown incoming := by
            simp only [shown, hb]
            rfl
          rw [hshown]
          exact hfails (by simp [isReceived, hb])
      received := h.received
      called := h.called.trans hcalls.symm }

theorem invariant_bodyCompletion (h : Invariant incoming registry filter s)
    (hopen : s.isCompleted = false) :
    Invariant incoming registry filter (s.next registry filter .bodyCompletion) := by
  have hb := canHaveHttpBody_eq h
  cases hset : s.connection.isResponseSet with
  | true =>
    have hreceived := h.received hset
    have hno : incoming.canHaveHttpBody = false := by simpa [isReceived, hopen] using hreceived
    have hrun := prepareResponse_set registry filter
      (hb.trans hno) hset
    have hnext : s.next registry filter .bodyCompletion = { s with isCompleted := true } := by
      simp only [next, perform, hrun]
    have hcalls : ({ s with isCompleted := true } : Exchange).calls incoming registry filter =
        s.calls incoming registry filter := by
      simp [calls, isReceived, shown, hno]
    rw [hnext]
    exact
      { method := h.method
        contentLength := h.contentLength
        stage := h.stage
        stops := h.stops
        unset := by simp [hset]
        received := fun _ => by simp [isReceived]
        called := h.called.trans hcalls.symm }
  | false =>
    obtain ⟨hcors, hrequest, hfails⟩ := h.unset hset
    have hshown : s.connection.request =
        ({ s with isCompleted := true } : Exchange).shown incoming ∨ Fails (generateResponse
          registry filter (({ s with isCompleted := true } : Exchange).shown incoming)) := by
      cases hbody : incoming.canHaveHttpBody with
      | true => exact .inl (by simp [shown, hbody, hrequest])
      | false => exact .inr (hfails (by simp [isReceived, hbody]))
    have hcalled : s.connection.called = [] := by
      rw [h.called, calls]
      cases hreceived : s.isReceived incoming with
      | false => simp
      | true => rw [callsOf_fails (hfails hreceived), ite_self]
    exact prepare_spec (s := { s with isCompleted := true }) h.method h.contentLength hset
      h.stage h.stops hcors hrequest (by simp [isReceived]) hcalled hshown

theorem invariant_writeable (h : Invariant incoming registry filter s)
    (hw : s.connection.writeRequested = true) (io : Writing) :
    Invariant incoming registry filter (s.write io) := by
  have hstep := writeStep_of_stage io h.stage hw
  have hset : s.connection.isResponseSet = true := by
    cases h.stage with
    | unset _ _ _ _ idle => simp [idle] at hw
    | waiting _ set => simp [isResponseSet, set]
    | preflight final => simp [isResponseSet, final]
    | body final => simp [isResponseSet, final]
    | done final => simp [isResponseSet, final]
  have hreceived : (s.write io).isReceived incoming = s.isReceived incoming := by
    simp [isReceived, hstep.isCompleted]
  exact
    { method := by rw [hstep.same.request, h.method]
      contentLength := by rw [hstep.same.contentLength, h.contentLength]
      stage := hstep.stage
      stops := by rw [hstep.stops]; exact h.stops
      unset := by simp [hstep.set]
      received := fun _ => by rw [hreceived]; exact h.received hset
      called := by
        rw [hstep.same.called, h.called]
        simp only [calls, hreceived, shown, hstep.chunks] }

theorem invariant_resolve (h : Invariant incoming registry filter s) (hp : s.isPending = true)
    (future : Future) : Invariant incoming registry filter (s.resolve future) := by
  have hstage : Stage s.isClosed { s.connection with delayedResponse := some future } := by
    cases h.stage with
    | waiting f set final delayed headers body requested sent =>
      exact .waiting future set final rfl headers body requested sent
    | unset _ hfuture | preflight _ hfuture | body _ hfuture | done _ hfuture =>
      simp [isPending, hfuture] at hp
  exact ⟨h.method, h.contentLength, hstage, h.stops, h.unset, h.received, h.called⟩

theorem invariant_next (h : Invariant incoming registry filter s) (e : Event)
    (he : s.Enabled e) : Invariant incoming registry filter (s.next registry filter e) := by
  cases e with
  | body data => exact invariant_body h he.2 data
  | bodyCompletion => exact invariant_bodyCompletion h he.2
  | writeable io => exact invariant_writeable h he.2 io
  | fulfil response => exact invariant_resolve h he.2 (.value response)
  | abandon => exact invariant_resolve h he.2 .broken
  | close => exact ⟨h.method, h.contentLength, h.stage.close, h.stops, h.unset, h.received, h.called⟩

theorem invariant_run {es : List Event} (h : (machine incoming registry filter).Run es s) :
    Invariant incoming registry filter s :=
  h.invariant invariant_start fun _ _ hi he _ => invariant_next hi _ he

theorem sent_next (h : Invariant incoming registry filter s) {e : Event} (he : s.Enabled e)
    (hw : ∀ io, e ≠ .writeable io) :
    (s.next registry filter e).connection.sent = s.connection.sent := by
  cases e with
  | body data => rfl
  | bodyCompletion =>
    cases hset : s.connection.isResponseSet with
    | true =>
      have hreceived := h.received hset
      have hno : incoming.canHaveHttpBody = false := by
        simpa [isReceived, he.2] using hreceived
      have hrun := prepareResponse_set registry filter
        ((canHaveHttpBody_eq h).trans hno) hset
      simp only [next, perform, hrun]
    | false =>
      have hrun := prepareResponse_unset registry filter hset
      simp only [next, perform, hrun]
      rcases generateResponse registry filter s.connection.request with
        e | (response | ⟨endpoint, request, future⟩ | _) <;> rfl
  | writeable io => exact absurd rfl (hw io)
  | fulfil response => rfl
  | abandon => rfl
  | close => rfl

end Invariant

/-- What the peer and the application see of an exchange. -/
structure Orderly (incoming : Incoming) (registry : Registry Future) (filter : Option Filter)
    (s : Exchange) : Prop where
  noLogicError : ∀ e, .logic e ∉ s.stops
  neverBlocked : .blocked ∉ s.stops
  defined : .undefined ∉ s.stops
  calledAtMostOnce : s.connection.called.length ≤ 1
  calledOnce : incoming.isCorsPreflightRequest = false → s.isReceived incoming = true →
    ∀ endpoint request future, generateResponse registry filter (s.shown incoming) =
      .ok (.called endpoint request future) → s.connection.called = [(endpoint, request)]
  preflight : incoming.isCorsPreflightRequest = true → s.connection.called = []
  body : incoming.canHaveHttpBody = true → ∀ call ∈ s.connection.called,
    s.isCompleted = true ∧ call.2.body = s.chunks.flatten
  sent : IsAnswerSoFar s.connection.sent
  ready : ∀ e, s.Enabled e → (s.next registry filter e).connection.sent ≠ s.connection.sent →
    s.connection.isResponseReady = true
  requested : s.isClosed = false → s.connection.isResponseSet = true →
    s.connection.writeRequested = true ∨ IsAnswer s.connection.sent

section Main
variable {incoming : Incoming} {registry : Registry Future} {filter : Option Filter}
  {s : Exchange}

theorem length_callsOf_le (r : Except Exn (Generated Future)) : (callsOf r).length ≤ 1 := by
  unfold callsOf
  split
  · exact Nat.le_refl 1
  · exact Nat.zero_le 1

theorem Invariant.calledAtMostOnce (h : Invariant incoming registry filter s) :
    s.connection.called.length ≤ 1 := by
  rw [h.called, calls]
  split_ifs
  · exact Nat.zero_le 1
  · exact length_callsOf_le _

theorem Invariant.body (h : Invariant incoming registry filter s)
    (hb : incoming.canHaveHttpBody = true) {call : Bytes × Request}
    (hcall : call ∈ s.connection.called) :
    s.isCompleted = true ∧ call.2.body = s.chunks.flatten := by
  rw [h.called, calls] at hcall
  split_ifs at hcall with hno
  · cases hcall
  · simp only [Bool.or_eq_true, not_or, isReceived, hb, Bool.not_true, Bool.false_or,
      Bool.not_eq_true, Bool.not_eq_false'] at hno
    refine ⟨hno.2, ?_⟩
    unfold callsOf at hcall
    split at hcall
    · rename_i endpoint request future hgen
      obtain rfl := List.mem_singleton.mp hcall
      have hbody := (called_request hgen).2
      rw [shown, if_pos hb] at hbody
      exact hbody
    · cases hcall

theorem Invariant.ready (h : Invariant incoming registry filter s) {e : Event}
    (he : s.Enabled e)
    (hsent : (s.next registry filter e).connection.sent ≠ s.connection.sent) :
    s.connection.isResponseReady = true := by
  cases e with
  | writeable io => exact (writeStep_of_stage io h.stage he.2).ready hsent
  | body data => exact absurd (sent_next h he nofun) hsent
  | bodyCompletion => exact absurd (sent_next h he nofun) hsent
  | fulfil response => exact absurd (sent_next h he nofun) hsent
  | abandon => exact absurd (sent_next h he nofun) hsent
  | close => exact absurd (sent_next h he nofun) hsent

/-- In whatever order the callbacks come and the handler's future becomes ready, the exchange is
orderly at every moment. -/
theorem orderly_run (hserved : incoming.isServed filter = true) {es : List Event}
    (h : (machine incoming registry filter).Run es s) : Orderly incoming registry filter s := by
  have hi := invariant_run h
  have hthrew : ∀ e ∈ s.stops, ∃ x, e = .threw x := fun e he =>
    (hi.stops e he).resolve_right fun hu => by simp [hserved] at hu
  refine ⟨?_, ?_, ?_, hi.calledAtMostOnce, ?_, ?_, fun hb call => hi.body hb, hi.stage.soFar,
    fun e he => hi.ready he, ?_⟩
  · intro e he
    obtain ⟨x, hx⟩ := hthrew _ he
    cases hx
  · intro he
    obtain ⟨x, hx⟩ := hthrew _ he
    cases hx
  · intro he
    obtain ⟨x, hx⟩ := hthrew _ he
    cases hx
  · intro hcors hreceived endpoint request future hgen
    simp [hi.called, calls, hcors, hreceived, hgen, callsOf]
  · intro hcors
    simp [hi.called, calls, hcors]
  · intro hopen hset
    have hstage := hi.stage
    rw [hopen] at hstage
    exact hstage.requested hset

end Main

section Sample

def uploadRegistry : Registry Future :=
  (({} : Registry Future).add .post (ascii "objects") fun _ => .pending).2

def upload : Incoming := { method := some .post, path := ascii "/objects", contentLength := 3 }

end Sample
end Exchange
end Rockets.Http
