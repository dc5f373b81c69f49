import Rockets.JsonRpcRequesterCallbacks
import Rockets.HttpTypes

set_option autoImplicit false

/-!
# JSON-RPC requests over HTTP

The requester with the communicator that sends every request by an HTTP exchange of its
own. An exchange ends in a response, in an error, or at once when it cannot be started.
Callbacks of requests may make more requests, and return.
-/
namespace Rockets.JsonRpc.HttpCommunicator
open Function (update)
open Requester (Orderly Consistent consistent_request consistent_step)

def connectionFailure : Bytes := ascii "connection failed to start"

def makeJsonHttpError (errorMsg : Bytes) (id : Json) : Except Exn Text :=
  (Json.ofMembers [(ascii "jsonrpc", .string (ascii "2.0")),
    (ascii "error", .ofMembers [(ascii "message", .string errorMsg),
      (ascii "code", .numberInteger ErrorCode.httpError.value)]), (ascii "id", id)]).dump

/-- The exchange for a request; its error callback has captured the id. -/
inductive Exchange where
  | none
  | opened (id : Json)
  | ended

/-- What `http::Client::request` does: it may throw, but no error of the JSON library. -/
inductive Start where
  | opened
  | failed
  | threw
  deriving DecidableEq

/-- Exchanges by the call that made the request. -/
structure State where
  client : Requester.State := {}
  exchange : ℕ → Exchange := fun _ => .none

inductive Event where
  | request (method : Bytes) (params : Text) (start : Start)
  | respond (call : ℕ) (response : Http.Response)
  | fail (call : ℕ) (errorMsg : Bytes)
  | ret

namespace State
variable (lib : JsonLib) (s : State)

def handleError (client : Requester.State) (errorMsg : Bytes) (id : Json) : Requester.State :=
  match makeJsonHttpError errorMsg id with
  | .ok text => client.processResponse lib text
  | .error _ => client

/-- The message is parsed again for its id. -/
def sendText (call : ℕ) (message : Json) : Start → State
  | .opened =>
    { client := s.client.ret
      exchange := update s.exchange call (.opened (message.reparsed.at' (ascii "id"))) }
  | .failed =>
    { client := handleError lib s.client connectionFailure (message.reparsed.at' (ascii "id"))
      exchange := update s.exchange call .ended }
  | .threw => { s with client := s.client.raise .invalidArgument }

/-- The call only gets to the communicator if there is no error before. -/
def request (method : Bytes) (params : Text) (start : Start) : State :=
  let s := { s with client := s.client.request lib method params }
  match s.client.stack, s.client.wire.getLast? with
  | .send call _ :: _, some (_, message) => s.sendText lib call message start
  | _, _ => s

def next : Event → State
  | .request method params start => s.request lib method params start
  | .respond call response =>
    { client := s.client.processResponse lib response.body
      exchange := update s.exchange call .ended }
  | .fail call errorMsg => match s.exchange call with
    | .opened id =>
      { client := handleError lib s.client errorMsg id
        exchange := update s.exchange call .ended }
    | _ => s
  | .ret => { s with client := s.client.ret }

def isOpen (call : ℕ) : Bool :=
  match s.exchange call with
  | .opened _ => true
  | _ => false

def isSending : Bool :=
  match s.client.stack with
  | .send _ _ :: _ => true
  | _ => false

/-- The HTTP client invokes its callbacks while it processes its sockets. -/
def Enabled : Event → Prop
  | .request _ _ _ => s.isSending = false
  | .respond call _ => s.client.stack = [] ∧ s.isOpen call = true
  | .fail call errorMsg => (s.client.stack = [] ∧ s.isOpen call = true) ∧ utf8 errorMsg = true
  | .ret => s.client.stack ≠ []

instance (e : Event) : Decidable (s.Enabled e) :=
  match e with
  | .request _ _ _ => inferInstanceAs (Decidable (_ = _))
  | .respond _ _ | .fail _ _ => inferInstanceAs (Decidable (_ ∧ _))
  | .ret => inferInstanceAs (Decidable (_ ≠ _))

end State

def machine (lib : JsonLib) : Machine State Event where
  init := {}
  Enabled := State.Enabled
  next := State.next lib

instance (lib : JsonLib) (s : State) (e : Event) : Decidable ((machine lib).Enabled s e) :=
  inferInstanceAs (Decidable (s.Enabled e))

variable {lib : JsonLib} {s : State} {e : Event} {c n : ℕ}

/-- The counter does not come round to the id of a pending request. -/
def Fresh (s : State) : Event → Prop
  | .request _ _ _ => s.client.pending s.client.impl.lastId = none
  | _ => True

/-- Callbacks make requests and return; no open exchange ends. -/
def Between (s : State) (e : Event) : Prop :=
  Fresh s e ∧ match e with
    | .request _ _ _ | .ret => True
    | _ => False

/-- The request is not pending, and its callback has been invoked once, with its response. -/
def Answered (lib : JsonLib) (s : State) (c : ℕ) : Prop :=
  (∀ id, s.client.impl.pendingRequests.find? id ≠ some c) ∧ s.client.count c = 1 ∧
    ∀ i ∈ s.client.invocations, i.call = c → s.client.Right lib i

def Ends (lib : JsonLib) (s : State) (c : ℕ) : Event → Prop
  | .respond call _ | .fail call _ => call = c
  | .request method params .failed => c = s.client.calls.length ∧
      ∃ id, (s.client.request lib method params).Sent c id
  | _ => False

/-- A response has a body that is a response to the pending request, or the request has been
answered before; errors need nothing. -/
def Recognised (lib : JsonLib) (s : State) (c : ℕ) : Event → Prop
  | .respond _ response => Answered lib s c ∨
      ∃ a, s.client.impl.accept lib response.body = .ok (some a) ∧ a.call = c
  | _ => True

structure Linked (lib : JsonLib) (s : State) : Prop where
  consistent : Consistent lib s.client
  alive : s.client.isDestroyed = false
  opened : ∀ c id, s.exchange c = .opened id → ∃ n, id = .numberUnsigned n ∧ s.client.Sent c n

section Errors

def httpError (errorMsg : Bytes) (n : ℕ) : Json :=
  .object [(ascii "error", .object [(ascii "code", .numberInteger (-31003)),
    (ascii "message", .string errorMsg)]), (ascii "id", .numberUnsigned n),
    (ascii "jsonrpc", .string (ascii "2.0"))]

theorem httpError_utf8 {errorMsg : Bytes} (h : utf8 errorMsg = true) (n : ℕ) :
    (httpError errorMsg n).utf8 = true := by
  unfold httpError
  simp (disch := decide) only [Json.utf8, Json.utf8Members, utf8_ascii, h, Bool.and_true]

theorem makeJsonHttpError_ok {errorMsg : Bytes} (h : utf8 errorMsg = true) (n : ℕ) :
    makeJsonHttpError errorMsg (.numberUnsigned n) =
      .ok (.dumped (httpError errorMsg n) (httpError_utf8 h n)) :=
  Json.dump_ok (httpError_utf8 h n)

variable (lib) in
theorem accept_httpError {impl : Requester.Impl} {errorMsg : Bytes}
    (h : utf8 errorMsg = true) (hpending : impl.pendingRequests.find? n = some c) :
    ∃ rep, impl.accept lib (.dumped (httpError errorMsg n) (httpError_utf8 h n)) =
      .ok (some ⟨n, c, rep⟩) := by
  have hparse : lib.parseOrDiscard (.dumped (httpError errorMsg n) (httpError_utf8 h n)) =
    some (httpError errorMsg n) := rfl
  have hvalid : Requester.isValidJsonRpcResponse (httpError errorMsg n) = .ok true := rfl
  have hid : (httpError errorMsg n).at' (ascii "id") = .numberUnsigned n := rfl
  have hrep : Requester.makeResponse (httpError errorMsg n) =
    .ok { error := { message := errorMsg, code := -31003, data := .bytes [] } } := rfl
  refine ⟨{ error := { message := errorMsg, code := -31003, data := .bytes [] } }, ?_⟩
  simp only [Requester.Impl.accept, hparse, hvalid, hid, hpending, hrep]
  rfl

theorem handleError_eq {errorMsg : Bytes} (h : utf8 errorMsg = true) (client : Requester.State) :
    State.handleError lib client errorMsg (.numberUnsigned n) =
      client.processResponse lib (.dumped (httpError errorMsg n) (httpError_utf8 h n)) := by
  simp only [State.handleError, makeJsonHttpError_ok h n]

end Errors

section Steps

theorem reparsed_makeRequest_id (method : Bytes) (id : ℕ) (params : Option Json) :
    (Requester.makeRequest method id params).reparsed.at' (ascii "id") = .numberUnsigned id := by
  cases params <;> rfl

variable (lib) in
theorem request_cases (hsending : s.isSending = false) (method : Bytes) (params : Text)
    (start : Start) :
    (s.request lib method params start = { s with client := s.client.request lib method params } ∧
      (s.client.request lib method params).wire = s.client.wire) ∨
    ∃ ps, s.client.request lib method params = ((s.client.begin method params).emplace
        s.client.calls.length).send s.client.calls.length s.client.impl.lastId
          (Requester.makeRequest method s.client.impl.lastId ps) ∧
      s.request lib method params start =
        State.sendText lib { s with client := s.client.request lib method params }
          s.client.calls.length (Requester.makeRequest method s.client.impl.lastId ps) start := by
  have hstop (hstack : (s.client.request lib method params).stack = s.client.stack) :
      s.request lib method params start =
        { s with client := s.client.request lib method params } := by
    unfold State.request
    simp only [hstack]
    unfold State.isSending at hsending
    split at hsending
    · cases hsending
    · rename_i hother
      split
      · rename_i call id stack _ _ hsend _
        exact absurd hsend (hother call id stack)
      · rfl
  rcases s.client.request_cases lib method params with
    ⟨what, -, heq⟩ | ⟨e, -, -, heq⟩ | ⟨ps, -, ⟨-, heq⟩ | ⟨-, heq⟩⟩
  · refine .inl ⟨?_, by rw [heq]; rfl⟩
    simp only [State.request, heq, Requester.State.invokeInvalidParams]
  · exact .inl ⟨hstop (by rw [heq]; rfl), by rw [heq]; rfl⟩
  · exact .inl ⟨hstop (by rw [heq]; rfl), by rw [heq]; rfl⟩
  · refine .inr ⟨ps, heq, ?_⟩
    simp only [State.request, heq, Requester.State.send, List.getLast?_concat]

structure Sending (lib : JsonLib) (v : Requester.State) (c n : ℕ) : Prop where
  consistent : Consistent lib v
  alive : v.isDestroyed = false
  top : ∃ stack, v.stack = .send c n :: stack
  sent : v.Sent c n
  pending : v.impl.pendingRequests.find? n = some c
  count : v.count c = 0

theorem sending_of_request (h : Linked lib s) {method : Bytes} {params : Text}
    (hfree : s.client.pending s.client.impl.lastId = none) {ps : Option Json}
    (heq : s.client.request lib method params = ((s.client.begin method params).emplace
        s.client.calls.length).send s.client.calls.length s.client.impl.lastId
          (Requester.makeRequest method s.client.impl.lastId ps)) :
    Sending lib (s.client.request lib method params) s.client.calls.length
      s.client.impl.lastId where
  consistent := consistent_request h.consistent method params hfree
  alive := (s.client.alive_next (e := .request method params) nofun).trans h.alive
  top := ⟨s.client.stack, by rw [heq]; rfl⟩
  sent := by
    rw [heq]
    exact (Requester.sent_of_append (s := s.client) rfl).mpr (.inr ⟨rfl, rfl⟩)
  pending := by
    rw [heq]
    exact (Requester.Impl.find?_emplace hfree _ _).trans (if_pos rfl)
  count := by
    rw [heq]
    exact h.consistent.count_fresh

namespace Sending
variable {v : Requester.State} (h : Sending lib v c n)
include h

theorem stack_ne : v.stack ≠ [] := by
  obtain ⟨stack, hstack⟩ := h.top
  rw [hstack]
  exact List.cons_ne_nil _ _

/-- The exchange could not be started: the callback is given an error. -/
theorem failed : ∃ text rep, v.impl.accept lib text = .ok (some ⟨n, c, rep⟩) ∧
    Orderly lib v (.processResponse text) ∧
    State.handleError lib v connectionFailure (.numberUnsigned n) = v.respond text ⟨n, c, rep⟩ := by
  have hutf8 : utf8 connectionFailure = true := utf8_ascii (by decide)
  obtain ⟨rep, haccept⟩ := accept_httpError lib hutf8 h.pending
  refine ⟨_, rep, haccept, ?_, ?_⟩
  · simp only [Orderly, haccept]
    intro it hit hid
    obtain ⟨hpending, -, hone⟩ := h.consistent.running it hit
    have hcall : it.call = c := Option.some.inj (hpending.symm.trans (hid ▸ h.pending))
    rw [hcall, h.count] at hone
    omega
  · rw [handleError_eq hutf8]
    simp only [Requester.State.processResponse, haccept]

end Sending

theorem opened_of_isOpen (h : s.isOpen c = true) : ∃ id, s.exchange c = .opened id := by
  unfold State.isOpen at h
  split at h
  · exact ⟨_, ‹_›⟩
  · cases h

theorem fail_eq (h : Linked lib s) (hopen : s.isOpen c = true) {errorMsg : Bytes}
    (hutf8 : utf8 errorMsg = true) : ∃ n, s.client.Sent c n ∧ s.next lib (.fail c errorMsg) =
      { client := s.client.processResponse lib
          (.dumped (httpError errorMsg n) (httpError_utf8 hutf8 n))
        exchange := update s.exchange c .ended } := by
  obtain ⟨id, hid⟩ := opened_of_isOpen hopen
  obtain ⟨n, rfl, hsent⟩ := h.opened c id hid
  refine ⟨n, hsent, ?_⟩
  simp only [State.next, hid, handleError_eq hutf8]

def Kept (lib : JsonLib) (v : Requester.State) (e : Requester.Event) : Prop :=
  Orderly lib v e ∧ e ≠ .destroy

theorem client_path {v : Requester.State} (e : Requester.Event) (he : v.Enabled e)
    (hg : Orderly lib v e) (hdestroy : e ≠ .destroy) :
    (Requester.machine lib).Path (Kept lib) v [e] (v.next lib e) :=
  .single he ⟨hg, hdestroy⟩

/-- Every step is one or two steps of the requester. -/
theorem client_step (h : Linked lib s) (he : s.Enabled e) (hg : Fresh s e) :
    ∃ fs, (Requester.machine lib).Path (Kept lib) s.client fs (s.next lib e).client := by
  have hidle (text : Text) (hstack : s.client.stack = []) :
      (Requester.machine lib).Path (Kept lib) s.client [.processResponse text]
        (s.client.processResponse lib text) := by
    refine client_path (.processResponse text) h.alive ?_ (by simp)
    simp only [Orderly, Requester.State.iterators, hstack, List.filterMap_nil]
    split
    · simp
    · trivial
  cases e with
  | request method params start =>
    simp only [State.next]
    have hrequest : (Requester.machine lib).Path (Kept lib) s.client [.request method params]
        (s.client.request lib method params) :=
      client_path (.request method params) h.alive hg (by simp)
    rcases request_cases lib he method params start with ⟨heq, -⟩ | ⟨ps, hsend, heq⟩
    · rw [heq]
      exact ⟨_, hrequest⟩
    · have hv := sending_of_request h hg hsend
      rw [heq]
      cases start with
      | opened =>
        exact ⟨_, hrequest.trans (client_path .ret ⟨hv.alive, hv.stack_ne⟩ trivial (by simp))⟩
      | failed =>
        obtain ⟨text, rep, haccept, horderly, herror⟩ := hv.failed
        have hprocess := client_path (.processResponse text) hv.alive horderly (by simp)
        simp only [Requester.State.next, Requester.State.processResponse, haccept] at hprocess
        simp only [State.sendText, reparsed_makeRequest_id, herror]
        exact ⟨_, hrequest.trans hprocess⟩
      | threw =>
        obtain ⟨stack, hstack⟩ := hv.top
        have horderly : Orderly lib (s.client.request lib method params)
            (.raise .invalidArgument) := by
          simp only [Orderly, hstack]
        exact ⟨_, hrequest.trans (client_path (.raise .invalidArgument) ⟨hv.alive, hv.stack_ne⟩
          horderly (by simp))⟩
  | respond call response => exact ⟨_, hidle response.body he.1⟩
  | fail call errorMsg =>
    obtain ⟨n, -, heq⟩ := fail_eq h he.1.2 he.2
    rw [heq]
    exact ⟨_, hidle _ he.1.1⟩
  | ret => exact ⟨_, client_path .ret ⟨h.alive, he⟩ trivial (by simp)⟩

theorem wire_next (h : Linked lib s) (he : s.Enabled e) (hg : Fresh s e) :
    s.client.wire <+: (s.next lib e).client.wire := by
  obtain ⟨fs, hpath⟩ := client_step h he hg
  exact hpath.invariant (I := fun v => s.client.wire <+: v.wire) (List.prefix_refl _)
    fun v e hv _ _ => hv.trans (v.wire_next lib e)

theorem opened_next (h : Linked lib s) (he : s.Enabled e) (hg : Fresh s e) {id : Json}
    (hc : (s.next lib e).exchange c = .opened id) :
    s.exchange c = .opened id ∨ ∃ n, id = .numberUnsigned n ∧ (s.next lib e).client.Sent c n := by
  cases e with
  | request method params start =>
    simp only [State.next] at hc ⊢
    rcases request_cases lib he method params start with ⟨heq, -⟩ | ⟨ps, hsend, heq⟩
    · rw [heq] at hc
      exact .inl hc
    · have hv := sending_of_request h hg hsend
      rw [heq] at hc ⊢
      cases start with
      | opened =>
        simp only [State.sendText, Function.update_apply, reparsed_makeRequest_id] at hc
        split_ifs at hc with hcc
        · refine .inr ⟨_, (Exchange.opened.inj hc).symm, ?_⟩
          rw [hcc]
          exact hv.sent.mono (Requester.State.wire_next lib _ .ret)
        · exact .inl hc
      | failed =>
        simp only [State.sendText, Function.update_apply] at hc
        split_ifs at hc
        exact .inl hc
      | threw => exact .inl hc
  | respond call response =>
    simp only [State.next, Function.update_apply] at hc
    split_ifs at hc
    exact .inl hc
  | fail call errorMsg =>
    simp only [State.next] at hc
    split at hc
    · simp only [Function.update_apply] at hc
      split_ifs at hc
      exact .inl hc
    · exact .inl hc
  | ret => exact .inl hc

theorem linked_step (h : Linked lib s) (he : s.Enabled e) (hg : Fresh s e) :
    Linked lib (s.next lib e) := by
  obtain ⟨fs, hpath⟩ := client_step h he hg
  refine ⟨?_, ?_, fun c id hc => ?_⟩
  · exact hpath.invariant (I := Consistent lib) h.consistent
      fun _ _ hI he hg => consistent_step hI he hg.1
  · exact hpath.invariant (I := fun v => v.isDestroyed = false) h.alive
      fun v _ hv _ hg => (v.alive_next hg.2).trans hv
  · rcases opened_next h he hg hc with hold | hnew
    · obtain ⟨n, hid, hsent⟩ := h.opened c id hold
      exact ⟨n, hid, hsent.mono (wire_next h he hg)⟩
    · exact hnew

end Steps

section Ends

theorem linked_initial : Linked lib {} := ⟨Requester.consistent_initial, rfl, nofun⟩

theorem linked_run {es : List Event} (h : (machine lib).Guarded Fresh es s) : Linked lib s :=
  h.invariant (I := Linked lib) linked_initial fun _ _ hI he hg => linked_step hI he hg

/-- In every run the client is in an orderly run of the requester. -/
theorem client_run {es : List Event} (h : (machine lib).Guarded Fresh es s) :
    ∃ fs, (Requester.machine lib).Guarded (Orderly lib) fs s.client := by
  obtain ⟨fs, v, hpath, rfl, -⟩ := h.simulate (N := Requester.machine lib) (H := Kept lib)
    (R := fun s v => v = s.client ∧ Linked lib s) ⟨rfl, linked_initial⟩ (by
      rintro s _ e ⟨rfl, hlinked⟩ he hg
      obtain ⟨fs, hpath⟩ := client_step hlinked he hg
      exact ⟨fs, _, hpath, rfl, linked_step hlinked he hg⟩)
  exact ⟨fs, hpath.mono fun _ _ hkept => hkept.1⟩

/-- The callbacks of a client are those of an orderly requester. -/
theorem client_orderly {es : List Event} (h : (machine lib).Guarded Fresh es s) :
    (∃ fs, (Requester.machine lib).Guarded (Orderly lib) fs s.client) ∧
      (∀ c, s.client.count c ≤ 1) ∧ s.client.isUndefined = false := by
  have hlinked := linked_run h
  exact ⟨client_run h, hlinked.consistent.once, hlinked.consistent.defined⟩

theorem ret_invocations (client : Requester.State) : client.ret.invocations = client.invocations := by
  unfold Requester.State.ret
  split <;> rfl

theorem answered_iff (h : Linked lib s) (hidle : s.client.stack = []) (hsent : s.client.Sent c n) :
    Answered lib s c ↔ s.client.count c = 1 := by
  refine ⟨fun hanswered => hanswered.2.1, fun hone => ⟨fun id hpending => ?_, hone, ?_⟩⟩
  · rcases h.consistent.unanswered id c hpending with hzero | ⟨it, hit, -⟩
    · omega
    · simp [Requester.State.iterators, hidle] at hit
  · rintro i hi rfl
    exact h.consistent.right i hi fun _ _ => ⟨n, hsent⟩

variable (lib) in
theorem processResponse_count (client : Requester.State) (text : Text) (c : ℕ) :
    (client.processResponse lib text).count c = client.count c ∧
        (∀ a, client.impl.accept lib text = .ok (some a) → a.call ≠ c) ∨
      (client.processResponse lib text).count c = client.count c + 1 ∧
        ∃ a, client.impl.accept lib text = .ok (some a) ∧ a.call = c := by
  rcases client.processResponse_cases lib text with ⟨a, ha, heq⟩ | ⟨hnone, heq⟩
  · rw [heq, Requester.count_respond]
    by_cases hcc : a.call = c
    · exact .inr ⟨by simp [hcc], a, ha, hcc⟩
    · refine .inl ⟨by simp [hcc], fun a' ha' => ?_⟩
      rwa [← Option.some.inj (Except.ok.inj (ha.symm.trans ha'))]
  · rw [heq]
    exact .inl ⟨rfl, fun a ha => absurd ha (hnone a)⟩

theorem count_between (h : Linked lib s) (he : s.Enabled e) (hg : Between s e)
    (hsent : s.client.Sent c n) : (s.next lib e).client.count c = s.client.count c := by
  have hlt := h.consistent.sentCalled c n hsent
  cases e with
  | request method params start =>
    simp only [State.next]
    have hbegin : (s.client.request lib method params).count c = s.client.count c := by
      rcases s.client.request_cases lib method params with
        ⟨what, -, heq⟩ | ⟨e, -, -, heq⟩ | ⟨ps, -, ⟨-, heq⟩ | ⟨-, heq⟩⟩ <;> rw [heq]
      · rw [Requester.count_invokeInvalidParams, if_neg hlt.ne']
        rfl
      · rfl
      · rfl
      · rfl
    rcases request_cases lib he method params start with ⟨heq, -⟩ | ⟨ps, hsend, heq⟩
    · rw [heq, hbegin]
    · have hv := sending_of_request h hg.1 hsend
      rw [heq, ← hbegin]
      cases start with
      | opened => simp only [State.sendText, Requester.State.count, ret_invocations]
      | failed =>
        obtain ⟨text, rep, -, -, herror⟩ := hv.failed
        simp only [State.sendText, reparsed_makeRequest_id, herror, Requester.count_respond]
        rw [if_neg hlt.ne', Nat.add_zero]
      | threw =>
        obtain ⟨stack, hstack⟩ := hv.top
        simp only [State.sendText, Requester.State.raise, hstack]
        rfl
  | ret => simp only [State.next, Requester.State.count, ret_invocations]
  | respond call response => exact hg.2.elim
  | fail call errorMsg => exact hg.2.elim

theorem count_end (h : Linked lib s) (he : s.Enabled e) (hg : Fresh s e) (hend : Ends lib s c e) :
    ∃ n, (s.next lib e).client.Sent c n ∧
      ((s.next lib e).client.count c = 1 ↔ Recognised lib s c e) := by
  cases e with
  | request method params start =>
    cases start with
    | opened => exact hend.elim
    | threw => exact hend.elim
    | failed =>
      obtain ⟨rfl, id, hsent⟩ := hend
      rcases request_cases lib he method params .failed with
        ⟨heq, hwire⟩ | ⟨ps, hsend, heq⟩
      · rw [Requester.State.Sent, hwire] at hsent
        exact absurd hsent (h.consistent.sent_fresh id)
      · have hv := sending_of_request h hg hsend
        obtain ⟨text, rep, -, -, herror⟩ := hv.failed
        refine ⟨_, hv.sent.mono ?_, ?_⟩
        · simp only [State.next, heq, State.sendText, reparsed_makeRequest_id, herror]
          exact List.prefix_refl _
        · simp only [State.next, heq, State.sendText, reparsed_makeRequest_id, herror,
            Requester.count_respond, hv.count, Recognised, if_true]
  | respond call response =>
    obtain rfl : call = c := hend
    obtain ⟨captured, hcaptured⟩ := opened_of_isOpen he.2
    obtain ⟨n, -, hsent⟩ := h.opened call captured hcaptured
    refine ⟨n, hsent.mono (wire_next h he hg), ?_⟩
    simp only [State.next, Recognised, answered_iff h he.1 hsent]
    rcases processResponse_count lib s.client response.body call with
      ⟨hcount, hother⟩ | ⟨hcount, haccept⟩
    · rw [hcount]
      exact ⟨.inl, fun hor => hor.elim id fun ⟨a, ha, hcall⟩ => absurd hcall (hother a ha)⟩
    · have honce := (linked_step (e := .respond call response) h he hg).consistent.once call
      simp only [State.next, hcount] at honce
      exact ⟨fun _ => .inr haccept, fun _ => by omega⟩
  | fail call errorMsg =>
    obtain rfl : call = c := hend
    obtain ⟨n, hsent, heq⟩ := fail_eq h he.1.2 he.2
    refine ⟨n, hsent.mono (wire_next h he hg), ?_⟩
    have honce := (linked_step (e := .fail call errorMsg) h he hg).consistent.once call
    simp only [Recognised, iff_true]
    rw [heq] at honce ⊢
    by_cases hzero : s.client.count call = 0
    · obtain ⟨rep, haccept⟩ := accept_httpError lib he.2
        (h.consistent.outstanding call n hsent hzero)
      simp only [Requester.State.processResponse, haccept, Requester.count_respond, hzero, if_true]
    · rcases processResponse_count lib s.client
        (.dumped (httpError errorMsg n) (httpError_utf8 he.2 n)) call with ⟨hcount, -⟩ | ⟨hcount, -⟩
      · simp only [hcount] at honce ⊢
        omega
      · simp only [hcount] at honce ⊢
        omega
  | ret => exact hend.elim

/-- From the end of an exchange until the next one ends, whenever no call is in progress: the
request has been answered if and only if the exchange told something about it. -/
theorem exchange_end_answered_iff {es fs : List Event} {u : State}
    (h : (machine lib).Guarded Fresh es s) (he : s.Enabled e) (hg : Fresh s e)
    (hend : Ends lib s c e) (hpath : (machine lib).Path Between (s.next lib e) fs u)
    (hidle : u.client.stack = []) : Answered lib u c ↔ Recognised lib s c e := by
  have hlinked := linked_run h
  obtain ⟨n, hsent, hrecognised⟩ := count_end hlinked he hg hend
  have hpreserved : (Linked lib u ∧ u.client.Sent c n) ∧
      u.client.count c = (s.next lib e).client.count c :=
    hpath.invariant (I := fun u => (Linked lib u ∧ u.client.Sent c n) ∧
        u.client.count c = (s.next lib e).client.count c)
      ⟨⟨linked_step hlinked he hg, hsent⟩, rfl⟩ fun _ _ ⟨⟨hI, hs⟩, hcount⟩ he hg =>
        ⟨⟨linked_step hI he hg.1, hs.mono (wire_next hI he hg.1)⟩,
          (count_between hI he hg hs).trans hcount⟩
  obtain ⟨⟨hlinked', hsent'⟩, hcount⟩ := hpreserved
  rw [answered_iff hlinked' hidle hsent', hcount, hrecognised]

instance (s : State) (e : Event) : Decidable (Fresh s e) := by
  unfold Fresh
  split <;> infer_instance

instance (s : State) (e : Event) : Decidable (Between s e) := by
  refine @instDecidableAnd _ _ inferInstance ?_
  split <;> infer_instance

abbrev sample : Machine State Event := machine (.ofTable [])

def requested : State := sample.next sample.init (.request (ascii "substract") (.bytes []) .opened)

theorem requested_run :
    sample.Guarded Fresh [.request (ascii "substract") (.bytes []) .opened] requested :=
  .single (by decide +kernel) (by decide +kernel)

theorem client_orderly_requested :
    (∃ fs, (Requester.machine (.ofTable [])).Guarded (Orderly (.ofTable [])) fs requested.client) ∧
      (∀ c, requested.client.count c ≤ 1) ∧ requested.client.isUndefined = false :=
  client_orderly requested_run

def responded : State := sample.next requested (.respond 0 { body := Requester.responseTo 0 })

theorem responded_path : sample.Path Between responded [.ret] (sample.next responded .ret) :=
  .single (by decide +kernel) (by decide +kernel)

theorem responded_answered : Answered (.ofTable []) (sample.next responded .ret) 0 := by
  refine (exchange_end_answered_iff requested_run (by decide +kernel) (e := .respond 0
    { body := Requester.responseTo 0 }) trivial rfl responded_path (by decide +kernel)).mpr ?_
  rcases processResponse_count (.ofTable []) requested.client (Requester.responseTo 0) 0 with
    ⟨hcount, -⟩ | ⟨-, haccept⟩
  · exact absurd hcount (by decide +kernel)
  · exact .inr haccept

/-- The server does not know the path: its response has no body. -/
theorem notFound_pending : ¬ ∀ es s e c fs u, sample.Run es s → sample.Enabled s e →
    Ends (.ofTable []) s c e → sample.Path Between (sample.next s e) fs u →
      u.client.stack = [] → Answered (.ofTable []) u c := by
  intro hall
  have hanswered := hall _ requested (.respond 0 { code := 404 }) 0 [] _ requested_run.run
    (by decide +kernel) rfl .nil (by decide +kernel)
  exact hanswered.1 0 (by decide +kernel)

end Ends
end Rockets.JsonRpc.HttpCommunicator
