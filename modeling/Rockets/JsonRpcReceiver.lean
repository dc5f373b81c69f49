import Rockets.JsonRpcUtils

set_option autoImplicit false

/-!
# Receivers

The three implementation classes behind `Receiver`, `AsyncReceiver` and
`CancellableReceiver`, for one thread: nobody else holds the mutex of the pending
requests while an operation runs.
-/
namespace Rockets.JsonRpc

/-- Why a computation stops without returning: an exception, or waiting on a future that
is never fulfilled. -/
inductive Stop where
  | threw (e : Exn)
  | blocked
  deriving DecidableEq, Repr

/-- A respond callback kept in the table: default constructed, or that of a request whose
answer another call awaits. -/
inductive Responder where
  | empty
  | bound
  deriving DecidableEq, Repr

structure Entry (α : Type) where
  first : CancelRequestCallback α
  second : Responder

/-- The ordered map of pending requests; keys are equal up to the order of the library. -/
abbrev PendingRequests (α : Type) := List (Json × Entry α)

namespace PendingRequests
variable {α : Type} (lib : JsonLib)

def find? (id : Json) : PendingRequests α → Option (Entry α)
  | [] => none
  | (key, entry) :: es => if lib.sameKey id key then some entry else find? id es

def alter (id : Json) (f : Option (Entry α) → Entry α) : PendingRequests α → PendingRequests α
  | [] => [(id, f none)]
  | (key, entry) :: es =>
    if lib.sameKey id key then (key, f (some entry)) :: es else (key, entry) :: alter id f es

def erase (id : Json) (es : PendingRequests α) : PendingRequests α :=
  es.filter fun e => !lib.sameKey id e.1

def contains (id : Json) (es : PendingRequests α) : Bool := es.any fun e => lib.sameKey id e.1

end PendingRequests

/-- What an operation of a receiver may change. `out` is what the respond callback of
the request at hand writes to. -/
structure World (α τ : Type) where
  app : α
  requests : PendingRequests α
  aborted : List Json
  out : τ

/-- Computations that may stop, keeping the changes made so far. -/
abbrev Effect (α τ : Type) := EStateM Stop (World α τ)

abbrev JsonResponseCallback (τ : Type) := Json → τ → Except Exn τ

section Effects
variable {α τ β : Type}

def raise (e : Exn) : Effect α τ β := throw (.threw e)

def ofExcept : Except Exn β → Effect α τ β
  | .ok b => pure b
  | .error e => raise e

def call (f : α → β × α) : Effect α τ β := do
  let (b, app) := f (← get).app
  modify fun w => { w with app }
  return b

def modifyRequests (f : PendingRequests α → PendingRequests α) : Effect α τ Unit :=
  modify fun w => { w with requests := f w.requests }

def send (respond : JsonResponseCallback τ) (j : Json) : Effect α τ Unit := do
  let out ← ofExcept (respond j (← get).out)
  modify fun w => { w with out }

end Effects

inductive Kind where
  | receiver
  | async
  | cancellable
  deriving DecidableEq, Repr

def reservedMethodPrefix : Bytes := ascii "rpc."
def cancelMethodName : Bytes := ascii "cancel"
def progressMethodName : Bytes := ascii "progress"

def requestAborted : Response.Error :=
  { message := ascii "Request aborted", code := ErrorCode.requestAborted.value }

def verifyValidMethodName (kind : Kind) (method : Bytes) : Except Exn Unit :=
  if kind = .cancellable ∧ (beginsWith method cancelMethodName ∨
      beginsWith method progressMethodName) then .error .invalidArgument
  else if beginsWith method reservedMethodPrefix then .error .invalidArgument
  else .ok ()

/-- The method tables of the three classes; only names that passed the check are in them. -/
structure Receiver (α : Type) where
  kind : Kind
  methods : OrderedMap Bytes (ResponseCallback α)
  asyncMethods : OrderedMap Bytes (DelayedResponseCallback α)
  cancellableMethods : OrderedMap Bytes (CancellableResponseCallback α)
  verified : ∀ method, methods.contains method ∨ asyncMethods.contains method ∨
    cancellableMethods.contains method → verifyValidMethodName kind method = .ok ()

namespace Receiver
variable {α τ : Type}

def new (kind : Kind) : Receiver α where
  kind
  methods := ∅
  asyncMethods := ∅
  cancellableMethods := ∅
  verified := by rintro _ (h | h | h) <;> cases h

theorem contains_set {κ β : Type} [LinearOrder κ] {m : OrderedMap κ β} {k j : κ} {b : β}
    (h : (m.set k b).contains j) : j = k ∨ m.contains j := by
  simp only [OrderedMap.contains, OrderedMap.find?_set] at h
  split_ifs at h with hj
  · exact .inl hj
  · exact .inr h

def bind (recv : Receiver α) (method : Bytes) (action : ResponseCallback α) :
    Except Exn (Receiver α) :=
  match h : verifyValidMethodName recv.kind method with
  | .error e => .error e
  | .ok () => .ok
    { recv with
      methods := recv.methods.set method action
      verified := by
        rintro m (hm | hm)
        · rcases contains_set hm with rfl | hm
          · exact h
          · exact recv.verified m (.inl hm)
        · exact recv.verified m (.inr hm) }

def bindAsync (recv : Receiver α) (method : Bytes) (action : DelayedResponseCallback α) :
    Except Exn (Receiver α) :=
  match h : verifyValidMethodName recv.kind method with
  | .error e => .error e
  | .ok () => .ok
    { recv with
      asyncMethods := recv.asyncMethods.set method action
      verified := by
        rintro m (hm | hm | hm)
        · exact recv.verified m (.inl hm)
        · rcases contains_set hm with rfl | hm
          · exact h
          · exact recv.verified m (.inr (.inl hm))
        · exact recv.verified m (.inr (.inr hm)) }

def bindCancellable (recv : Receiver α) (method : Bytes)
    (action : CancellableResponseCallback α) : Except Exn (Receiver α) :=
  match h : verifyValidMethodName recv.kind method with
  | .error e => .error e
  | .ok () => .ok
    { recv with
      cancellableMethods := recv.cancellableMethods.set method action
      verified := by
        rintro m (hm | hm | hm)
        · exact recv.verified m (.inl hm)
        · exact recv.verified m (.inr (.inl hm))
        · rcases contains_set hm with rfl | hm
          · exact h
          · exact recv.verified m (.inr (.inr hm)) }

def isRegisteredMethodName (recv : Receiver α) (method : Bytes) : Bool :=
  match recv.kind with
  | .receiver => recv.methods.contains method
  | .async => recv.asyncMethods.contains method || recv.methods.contains method
  | .cancellable => recv.cancellableMethods.contains method || method == cancelMethodName ||
      recv.asyncMethods.contains method || recv.methods.contains method

/-- Whether an action is bound to the method by one of the calls the class offers. -/
def binds (recv : Receiver α) (method : Bytes) : Bool :=
  match recv.kind with
  | .receiver => recv.methods.contains method
  | .async => recv.asyncMethods.contains method || recv.methods.contains method
  | .cancellable => recv.cancellableMethods.contains method ||
      recv.asyncMethods.contains method || recv.methods.contains method

theorem ne_cancel_of_binds {recv : Receiver α} {method : Bytes} (h : recv.binds method = true)
    (hkind : recv.kind = .cancellable) : method ≠ cancelMethodName := by
  rintro rfl
  simp only [binds, hkind, Bool.or_eq_true] at h
  have hbound : recv.methods.contains cancelMethodName ∨
      recv.asyncMethods.contains cancelMethodName ∨
      recv.cancellableMethods.contains cancelMethodName := by
    rcases h with (h | h) | h
    · exact .inr (.inr h)
    · exact .inr (.inl h)
    · exact .inl h
  have hverified := recv.verified cancelMethodName hbound
  rw [hkind] at hverified
  exact absurd hverified (by decide)

/-- The lambdas that the classes give to an action: no reply for valid notifications
(requests without an id). -/
def reply (lib : JsonLib) (requestID : Json) (respond : JsonResponseCallback τ)
    (rep : Response) : Effect α τ Unit := do
  if requestID.isNull then send respond .null
  else send respond (← ofExcept (makeResponse lib rep requestID))

/-- An answer given at once is sent; the completion that sends a later one is returned. -/
def answer (complete : Response → Effect α τ Unit) :
    Answer → Effect α τ (Option (Effect α τ Unit))
  | .now rep => do
    complete rep
    return none
  | .later rep => return some (complete rep)

def processSync (lib : JsonLib) (recv : Receiver α) (requestID : Json) (method : Bytes)
    (request : Request) (respond : JsonResponseCallback τ) :
    Effect α τ (Option (Effect α τ Unit)) :=
  match recv.methods.find? method with
  | none => raise .badFunctionCall
  | some action => do
    let response ← call (action request)
    reply lib requestID respond response
    return none

def processAsync (lib : JsonLib) (recv : Receiver α) (requestID : Json) (method : Bytes)
    (request : Request) (respond : JsonResponseCallback τ) :
    Effect α τ (Option (Effect α τ Unit)) :=
  match recv.asyncMethods.find? method with
  | none => processSync lib recv requestID method request respond
  | some func => do
    answer (reply lib requestID respond) (← call (func request))

def skipResponse (lib : JsonLib) (requestID : Json) : Effect α τ Bool := do
  let present := (← get).requests.contains lib requestID
  modifyRequests (·.erase lib requestID)
  return !present

def complete (lib : JsonLib) (requestID : Json) (respond : JsonResponseCallback τ)
    (rep : Response) : Effect α τ Unit := do
  if ← skipResponse lib requestID then return
  reply lib requestID respond rep

def temporary : CancelRequestCallback α := fun app => (true, app)

/-- Assignment to the cancel function only, through the subscript operator. -/
def storeCancelFunc (lib : JsonLib) (requestID : Json) :
    Option (CancelRequestCallback α) → PendingRequests α → PendingRequests α
  | none => id
  | some cancelFunc => PendingRequests.alter lib requestID fun
    | none => { first := cancelFunc, second := .empty }
    | some entry => { entry with first := cancelFunc }

/-- The part of `processCancel` under the lock. An invalid request ID or a request that was
already processed is ignored. -/
def cancelPending (lib : JsonLib) (requestID : Json) : Effect α τ Unit := do
  match (← get).requests.find? lib requestID with
  | none => return
  | some cancelFunc =>
    if ← call cancelFunc.first then
      let reply ← ofExcept (makeErrorResponse lib requestAborted requestID)
      match cancelFunc.second with
      | .empty => raise .badFunctionCall
      | .bound => modify fun w => { w with aborted := w.aborted ++ [reply] }
    modifyRequests (·.erase lib requestID)

def processCancel (lib : JsonLib) (id : Json) (request : Request) : Effect α τ Unit := do
  match lib.parseOrDiscard request.message with
  | none => return
  | some params =>
    -- need a valid notification with the ID of the request to cancel
    if !id.isNull || !params.count (ascii "id") then return
    cancelPending lib (params.at' (ascii "id"))

def processCancellable (lib : JsonLib) (recv : Receiver α) (requestID : Json) (method : Bytes)
    (request : Request) (respond : JsonResponseCallback τ) :
    Effect α τ (Option (Effect α τ Unit)) := do
  if method = cancelMethodName then
    processCancel lib requestID request
    send respond .null
    return none
  match recv.cancellableMethods.find? method with
  | none => processAsync lib recv requestID method request respond
  | some func =>
    modifyRequests (·.alter lib requestID fun _ => { first := temporary, second := .bound })
    let (given, cancelFunc) ← call (func request)
    let later ← answer (complete lib requestID respond) given
    modifyRequests (storeCancelFunc lib requestID cancelFunc)
    return later

def process (lib : JsonLib) (recv : Receiver α) (requestID : Json) (method : Bytes)
    (request : Request) (respond : JsonResponseCallback τ) :
    Effect α τ (Option (Effect α τ Unit)) :=
  match recv.kind with
  | .receiver => processSync lib recv requestID method request respond
  | .async => processAsync lib recv requestID method request respond
  | .cancellable => processCancellable lib recv requestID method request respond

end Receiver
end Rockets.JsonRpc
