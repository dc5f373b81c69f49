import Rockets.Machine
import Rockets.JsonRpcTypes

set_option autoImplicit false

/-!
# The requester

A run of a requester interleaves its own code with code it calls: the communicator behind
`_send` and the callbacks of the requests. These may call the requester again, so the calls
in progress form a stack. Callbacks are identified by the call that passed them.
-/
namespace Rockets.JsonRpc.Requester

def destructionError : Response :=
  { error :=
    { message := ascii "Requester was destroyed before receiving a response"
      code := ErrorCode.requestAborted.value } }

def makeRequest (method : Bytes) (id : ℕ) (params : Option Json) : Json :=
  .ofMembers ([(ascii "jsonrpc", .string (ascii "2.0")), (ascii "method", .string method),
    (ascii "id", .numberUnsigned id)] ++ (params.map fun p => (ascii "params", p)).toList)

def isValidError (error : Json) : Bool :=
  error.isObject && error.count (ascii "code") && (error.at' (ascii "code")).isNumberInteger &&
    error.count (ascii "message") && (error.at' (ascii "message")).isString

def isValidId (id : Json) : Bool := id.isNumberInteger || id.isString || id.isNull

/-- A version that is not a string throws. -/
def isValidJsonRpcResponse (object : Json) : Except Exn Bool :=
  if object.count (ascii "jsonrpc") then do
    let version ← (object.at' (ascii "jsonrpc")).getString
    return version == ascii "2.0" &&
      ((object.count (ascii "result") && !object.count (ascii "error")) ||
        (object.count (ascii "error") && !object.count (ascii "result") &&
          isValidError (object.at' (ascii "error")))) &&
      object.count (ascii "id") && isValidId (object.at' (ascii "id"))
  else return false

/-- `get<int>()` of an integer: the low 32 bits. -/
def getInt : Json → Except Exn ℤ
  | .numberInteger n => .ok (n.bmod (2 ^ 32))
  | .numberUnsigned n => .ok ((n : ℤ).bmod (2 ^ 32))
  | _ => .error .typeError

def makeResponse (object : Json) : Except Exn Response :=
  if object.count (ascii "error") then do
    let error := object.at' (ascii "error")
    let message ← (error.at' (ascii "message")).getString
    let code ← getInt (error.at' (ascii "code"))
    let data ← if error.count (ascii "data") then (error.at' (ascii "data")).dump
      else .ok (.bytes [])
    return { error := { message := message, code := code, data := data } }
  else do
    let result ← (object.at' (ascii "result")).dump
    return { result := result }

def sizeCount : ℕ := 2 ^ 64

/-- Pending requests by id, each with the call whose callback is waiting. -/
structure Impl where
  pendingRequests : OrderedMap ℕ ℕ := ∅
  lastId : ℕ := 0

structure Accepted where
  id : ℕ
  call : ℕ
  response : Response

namespace Impl

def emplace (impl : Impl) (call : ℕ) : Impl where
  pendingRequests := impl.pendingRequests.emplace impl.lastId call
  lastId := (impl.lastId + 1) % sizeCount

/-- What `processResponse` does before it calls the callback; it returns false where there
is nothing. -/
def accept (lib : JsonLib) (impl : Impl) (text : Text) : Except Exn (Option Accepted) :=
  match lib.parseOrDiscard text with
  | none => return none
  | some response => do
    if ← isValidJsonRpcResponse response then
      match response.at' (ascii "id") with
      | .numberUnsigned id => match impl.pendingRequests.find? id with
        | some call => return some { id := id, call := call, response := ← makeResponse response }
        | none => return none
      | _ => return none
    else return none

def handle (impl : Impl) : ℕ := (impl.lastId + (sizeCount - 1)) % sizeCount

end Impl

/-- Parameters that are empty are left out. -/
def parseParams (lib : JsonLib) (params : Text) : Except Exn (Option Json) :=
  if params.isEmpty then .ok none else (lib.parseOrThrow params).map some

/-- An iterator to the entry of a pending request; it may dangle. -/
structure Iterator where
  id : ℕ
  call : ℕ
  isValid : Bool := true
  deriving DecidableEq

/-- Erasing an entry invalidates the iterators to it. -/
def Iterator.invalidate (id : ℕ) (it : Iterator) : Iterator :=
  { it with isValid := it.isValid && it.id != id }

/-- Code the requester has called: `_send` for the request of a call; a callback that is
told Invalid params, by a call that may have put an id on the wire before; a callback that
is given a response, by `processResponse` with its iterator. -/
inductive Frame where
  | send (call id : ℕ)
  | invalidParams (call : ℕ) (sent : Option ℕ)
  | respond (it : Iterator)
  deriving DecidableEq

namespace Frame

def iterator? : Frame → Option Iterator
  | respond it => some it
  | _ => none

def invalidate (id : ℕ) : Frame → Frame
  | respond it => respond (it.invalidate id)
  | f => f

end Frame

inductive Cause where
  | answered (text : Text)
  | invalidParams
  | destroyed

structure Invocation where
  call : ℕ
  response : Response
  cause : Cause

/-- The requester, the calls in progress (innermost first), and what has happened: the
calls with their arguments, the requests given to `_send`, the invocations of the callbacks
and the values returned. -/
structure State where
  impl : Impl := {}
  stack : List Frame := []
  calls : List (Bytes × Text) := []
  wire : List (ℕ × Json) := []
  invocations : List Invocation := []
  returned : List (ℕ × ℕ) := []
  isDestroyed : Bool := false
  isUndefined : Bool := false

inductive Event where
  | request (method : Bytes) (params : Text)
  | processResponse (text : Text)
  | ret
  | raise (e : Exn)
  | destroy

namespace State
variable (lib : JsonLib) (s : State)

def invoke (call : ℕ) (response : Response) (cause : Cause) : State :=
  { s with invocations := s.invocations ++ [⟨call, response, cause⟩] }

def invokeInvalidParams (call : ℕ) (sent : Option ℕ) (stack : List Frame) : State :=
  { s.invoke call Response.invalidParams .invalidParams with
    stack := .invalidParams call sent :: stack }

def begin (method : Bytes) (params : Text) : State :=
  { s with calls := s.calls ++ [(method, params)] }

def emplace (call : ℕ) : State := { s with impl := s.impl.emplace call }

def send (call id : ℕ) (requestJSON : Json) : State :=
  { s with wire := s.wire ++ [(call, requestJSON)], stack := .send call id :: s.stack }

def respond (text : Text) (a : Accepted) : State :=
  { s.invoke a.call a.response (.answered text) with
    stack := .respond { id := a.id, call := a.call } :: s.stack }

/-- `pendingRequests.erase(it)`, with the calls that are left in progress. -/
def erase (it : Iterator) (stack : List Frame) : State :=
  { s with
    impl := { s.impl with pendingRequests := s.impl.pendingRequests.erase it.id }
    stack := stack.map (Frame.invalidate it.id)
    isUndefined := s.isUndefined || !it.isValid }

/-- `request` until it calls the communicator or the callback, or exits by an exception. -/
def request (method : Bytes) (params : Text) : State :=
  let call := s.calls.length
  let s := s.begin method params
  match parseParams lib params with
  | .error (.parseError _) => s.invokeInvalidParams call none s.stack
  | .error _ => s
  | .ok params =>
    let id := s.impl.lastId
    let requestJSON := makeRequest method id params
    let s := s.emplace call
    match requestJSON.dump with
    | .error _ => s
    | .ok _ => s.send call id requestJSON

def processResponse (text : Text) : State :=
  match s.impl.accept lib text with
  | .ok (some a) => s.respond text a
  | _ => s

/-- The code on top of the stack returns, and so does what called it. -/
def ret : State :=
  match s.stack with
  | .send call _ :: stack | .invalidParams call _ :: stack =>
    { s with stack := stack, returned := s.returned ++ [(call, s.impl.handle)] }
  | .respond it :: stack => s.erase it stack
  | [] => s

/-- The code on top of the stack throws; only `request` catches, and only parse errors. -/
def raise (e : Exn) : State :=
  match s.stack, e with
  | .send call id :: stack, .parseError _ => s.invokeInvalidParams call (some id) stack
  | _ :: stack, _ => { s with stack := stack }
  | [], _ => s

def destroy : State :=
  { s with
    invocations := s.invocations ++
      s.impl.pendingRequests.values.map fun call => ⟨call, destructionError, .destroyed⟩
    impl := { s.impl with pendingRequests := ∅ }
    isDestroyed := true }

def Enabled : Event → Prop
  | .request _ _ | .processResponse _ => s.isDestroyed = false
  | .ret | .raise _ => s.isDestroyed = false ∧ s.stack ≠ []
  | .destroy => s.isDestroyed = false ∧ s.stack = []

def next : Event → State
  | .request method params => s.request lib method params
  | .processResponse text => s.processResponse lib text
  | .ret => s.ret
  | .raise e => s.raise e
  | .destroy => s.destroy

instance (e : Event) : Decidable (s.Enabled e) :=
  match e with
  | .request _ _ | .processResponse _ => inferInstanceAs (Decidable (_ = _))
  | .ret | .raise _ | .destroy => inferInstanceAs (Decidable (_ ∧ _))

def Sent (call id : ℕ) : Prop :=
  ∃ requestJSON, (call, requestJSON) ∈ s.wire ∧
    requestJSON.at' (ascii "id") = .numberUnsigned id

def iterators : List Iterator := s.stack.filterMap Frame.iterator?

def pending (id : ℕ) : Option ℕ := s.impl.pendingRequests.find? id

def count (call : ℕ) : ℕ := s.invocations.countP fun i => i.call == call

end State

def machine (lib : JsonLib) : Machine State Event where
  init := {}
  Enabled := State.Enabled
  next := State.next lib

instance (lib : JsonLib) (s : State) (e : Event) : Decidable ((machine lib).Enabled s e) :=
  inferInstanceAs (Decidable (s.Enabled e))

section Facts
variable {lib : JsonLib} {s : State} {c id : ℕ}

theorem makeRequest_id (method : Bytes) (id : ℕ) (params : Option Json) :
    (makeRequest method id params).at' (ascii "id") = .numberUnsigned id := by
  cases params <;> rfl

theorem Impl.find?_emplace {impl : Impl} (h : impl.pendingRequests.find? impl.lastId = none)
    (call j : ℕ) : (impl.emplace call).pendingRequests.find? j =
      if j = impl.lastId then some call else impl.pendingRequests.find? j := by
  simp only [Impl.emplace, OrderedMap.find?_emplace, h, Option.none_or]

theorem Impl.accept_eq_some {impl : Impl} {text : Text} {a : Accepted}
    (h : impl.accept lib text = .ok (some a)) : ∃ object, lib.parseOrDiscard text = some object ∧
      object.at' (ascii "id") = .numberUnsigned a.id ∧
      impl.pendingRequests.find? a.id = some a.call ∧ makeResponse object = .ok a.response := by
  unfold Impl.accept at h
  split at h
  · cases h
  · rename_i object hparse
    refine ⟨object, hparse, ?_⟩
    cases hvalid : isValidJsonRpcResponse object with
    | error e => simp [hvalid, bind, Except.bind] at h
    | ok b =>
      cases b with
      | false => simp [hvalid, bind, Except.bind, pure, Except.pure] at h
      | true =>
        simp only [hvalid, bind, Except.bind, if_true] at h
        split at h
        · rename_i id hid
          split at h
          · rename_i call hcall
            cases hrep : makeResponse object with
            | error e => simp [hrep] at h
            | ok rep =>
              simp only [hrep, pure, Except.pure, Except.ok.injEq, Option.some.injEq] at h
              subst h
              exact ⟨hid, hcall, rfl⟩
          · cases h
        · cases h

variable (lib) in
theorem State.request_cases (s : State) (method : Bytes) (params : Text) :
    (∃ what, parseParams lib params = .error (.parseError what) ∧ s.request lib method params =
      (s.begin method params).invokeInvalidParams s.calls.length none s.stack) ∨
    (∃ e, parseParams lib params = .error e ∧ (∀ what, e ≠ .parseError what) ∧
      s.request lib method params = s.begin method params) ∨
    ∃ ps, parseParams lib params = .ok ps ∧
      ((makeRequest method s.impl.lastId ps).utf8 = false ∧
          s.request lib method params = (s.begin method params).emplace s.calls.length ∨
        (makeRequest method s.impl.lastId ps).utf8 = true ∧ s.request lib method params =
          ((s.begin method params).emplace s.calls.length).send s.calls.length s.impl.lastId
            (makeRequest method s.impl.lastId ps)) := by
  cases hparams : parseParams lib params with
  | error e =>
    cases e with
    | parseError what =>
      refine .inl ⟨what, rfl, ?_⟩
      simp only [State.request, hparams]
      rfl
    | _ =>
      refine .inr (.inl ⟨_, rfl, nofun, ?_⟩)
      simp only [State.request, hparams]
  | ok ps =>
    refine .inr (.inr ⟨ps, rfl, ?_⟩)
    cases hutf8 : (makeRequest method s.impl.lastId ps).utf8 with
    | false =>
      refine .inl ⟨rfl, ?_⟩
      have hdump := Json.dump_error hutf8
      simp only [State.request, hparams, State.begin, hdump]
    | true =>
      refine .inr ⟨rfl, ?_⟩
      have hdump := Json.dump_ok hutf8
      simp only [State.request, hparams, State.begin, hdump]

variable (lib) in
theorem State.processResponse_cases (s : State) (text : Text) :
    (∃ a, s.impl.accept lib text = .ok (some a) ∧ s.processResponse lib text = s.respond text a) ∨
      (∀ a, s.impl.accept lib text ≠ .ok (some a)) ∧ s.processResponse lib text = s := by
  unfold State.processResponse
  split
  · rename_i a ha
    exact .inl ⟨a, ha, rfl⟩
  · rename_i hnone
    exact .inr ⟨hnone, rfl⟩

variable (lib) in
theorem State.wire_next (s : State) (e : Event) : s.wire <+: (s.next lib e).wire := by
  cases e with
  | request method params =>
    simp only [State.next]
    rcases s.request_cases lib method params with
      ⟨what, -, heq⟩ | ⟨e, -, -, heq⟩ | ⟨ps, -, ⟨-, heq⟩ | ⟨-, heq⟩⟩ <;> rw [heq]
    · exact List.prefix_refl _
    · exact List.prefix_refl _
    · exact List.prefix_refl _
    · exact List.prefix_append _ _
  | processResponse text =>
    simp only [State.next]
    rcases s.processResponse_cases lib text with ⟨a, -, heq⟩ | ⟨-, heq⟩
    · rw [heq]
      exact List.prefix_refl _
    · simp only [heq, List.prefix_refl]
  | ret =>
    simp only [State.next, State.ret]
    split <;> exact List.prefix_refl _
  | raise e =>
    simp only [State.next, State.raise]
    split <;> exact List.prefix_refl _
  | destroy => exact List.prefix_refl _

theorem State.alive_next (s : State) {e : Event} (he : e ≠ .destroy) :
    (s.next lib e).isDestroyed = s.isDestroyed := by
  cases e with
  | request method params =>
    simp only [State.next]
    rcases s.request_cases lib method params with
      ⟨what, -, heq⟩ | ⟨e, -, -, heq⟩ | ⟨ps, -, ⟨-, heq⟩ | ⟨-, heq⟩⟩ <;> rw [heq] <;> rfl
  | processResponse text =>
    simp only [State.next]
    rcases s.processResponse_cases lib text with ⟨a, -, heq⟩ | ⟨-, heq⟩
    · rw [heq]
      rfl
    · rw [heq]
  | ret =>
    simp only [State.next, State.ret]
    split <;> rfl
  | raise e =>
    simp only [State.next, State.raise]
    split <;> rfl
  | destroy => exact absurd rfl he

theorem State.Sent.mono {s' : State} (hwire : s.wire <+: s'.wire) (h : s.Sent c id) :
    s'.Sent c id := by
  obtain ⟨requestJSON, hmem, hid⟩ := h
  exact ⟨requestJSON, hwire.subset hmem, hid⟩

theorem State.iterators_map_invalidate (stack : List Frame) (id : ℕ) :
    (stack.map (Frame.invalidate id)).filterMap Frame.iterator? =
      (stack.filterMap Frame.iterator?).map (Iterator.invalidate id) := by
  induction stack with
  | nil => rfl
  | cons f fs ih => cases f <;> simp [List.filterMap_cons, Frame.invalidate, Frame.iterator?, ih]

end Facts
end Rockets.JsonRpc.Requester
