import Rockets.Json
import Rockets.Observable

set_option autoImplicit false

/-!
# The Python client

What the streams of `AsyncClient` make of the frames it receives. `None` is the null value and
strings are given by their encoding. A future that is cancelled and the end of the connection
are left out.
-/
namespace Rockets.Py

inductive PyException where
  | valueError
  | typeError
  | keyError
  | recursionError
  | overflowError
  | invalidRequestException
  deriving DecidableEq

section Values
variable (value : Json)

def isStr (s : Bytes) : Bool :=
  match value with
  | .string t => t = s
  | _ => false

def contains (key : Bytes) : Except PyException Bool :=
  match value with
  | .object _ => .ok (value.count key)
  | .array elements => .ok (elements.any fun element => isStr element key)
  | .string s => .ok (key <:+: s)
  | _ => .error .typeError

def subscript (key : Bytes) : Except PyException Json :=
  match value with
  | .object _ =>
    match value.find? key with
    | some v => .ok v
    | none => .error .keyError
  | _ => .error .typeError

/-- The truth value: a float is false if it is zero of either sign. -/
def truthy : Bool :=
  match value with
  | .null => false
  | .boolean b => b
  | .numberInteger n => n ≠ 0
  | .numberUnsigned n => n ≠ 0
  | .numberFloat bits => bits % 2 ^ 63 ≠ 0
  | .string s => !s.isEmpty
  | .array elements => !elements.isEmpty
  | .object members => !members.isEmpty

def isIn (strs : List Bytes) : Bool := strs.any fun s => isStr value s

end Values

section Utils
variable (value : Json)

def isJsonRpcResponse : Except PyException Bool :=
  if value.isObject then contains value (ascii "id") else .ok false

def isJsonRpcNotification : Except PyException Bool := do
  if !value.isObject then return false
  if !(← contains value (ascii "method")) then return false
  return !(← contains value (ascii "id"))

def isProgressNotification : Except PyException Bool := do
  if !value.isObject then return false
  if !(← contains value (ascii "method")) then return false
  if !isStr (← subscript value (ascii "method")) (ascii "progress") then return false
  if !(← contains value (ascii "params")) then return false
  contains (← subscript value (ascii "params")) (ascii "id")

end Utils

structure Request where
  method : Json
  params : Json

structure Response where
  result : Json
  error : Json

structure RequestError where
  code : Json
  message : Json
  data : Json

/-- What the client calls: the `json` module, the classes of `jsonrpc2`, and the arithmetic of
numbers, with which some amounts are summed up and divided. -/
structure Library where
  loads : Bytes → Except PyException Json
  dumps : Json → Except PyException Bytes
  requestFromJson : Bytes → Except PyException Request
  requestFromData : Json → Except PyException Request
  response : List (Bytes × Json) → Except PyException Response
  average : List Json → ℕ → Except PyException Json

def requestError (members : List (Bytes × Json)) : Except PyException RequestError :=
  if members.all fun m => [ascii "code", ascii "message", ascii "data"].contains m.1 then
    match Entries.find? (ascii "code") members, Entries.find? (ascii "message") members with
    | some code, some message =>
      .ok ⟨code, message, (Entries.find? (ascii "data") members).getD .null⟩
    | _, _ => .error .typeError
  else .error .typeError

inductive Outcome where
  | result (value : Json)
  | exception (error : RequestError)

structure RequestProgress where
  operation : Json
  amount : Json

/-- The amounts by id, in the order in which the ids came first. -/
abbrev Items := List (Bytes × Json)

def setItem (id : Bytes) (amount : Json) : Items → Items
  | [] => [(id, amount)]
  | item :: items =>
    if item.1 = id then (id, amount) :: items else item :: setItem id amount items

/-- What is done with a frame: the value is passed on to a subscriber, or settles a future. -/
inductive Delivery where
  | notification (request : Request)
  | settled (value : Json) (outcome : Outcome)
  | responses (value : Json) (responses : List Response)
  | progress (progress : RequestProgress) (items : Items)

/-- Who subscribes to the messages: subscribers to the notifications, the futures of requests
and batches, and the callbacks for the progress of either. -/
inductive Subscriber where
  | notifications
  | request (request_id : Bytes)
  | batch (request_ids : List Bytes)
  | progress (request_id : Bytes)
  | batchProgress (request_ids : List Bytes)

section Streams
variable (lib : Library)

/-! ### Requests -/

def responseFromData (data : Json) : Except PyException Response := do
  let id ← subscript data (ascii "id")
  match data with
  | .object members => lib.response (Entries.set (ascii "_id") id members)
  | _ => .error .typeError

def responseFromJson (json_str : Bytes) : Except PyException Response := do
  responseFromData lib (← lib.loads json_str)

def responseFilter (request_id : Bytes) (value : Json) : Except PyException Bool := do
  if !(← isJsonRpcResponse value) then return false
  return isStr (← subscript value (ascii "id")) request_id

def toResponse (value : Json) : Except PyException Json := do
  let response ← responseFromJson lib (← lib.dumps value)
  if truthy response.result then return response.result
  return response.error

def onNext (value : Json) : Except PyException Outcome :=
  match value with
  | .object members =>
    if value.count (ascii "code") then (requestError members).map .exception
    else .ok (.result value)
  | _ => .ok (.result value)

/-! ### Batches -/

def batchResponseFilter (request_ids : List Bytes) (value : Json) : Except PyException Bool :=
  match value with
  | .array elements => elements.allM fun response => do
    if !(← isJsonRpcResponse response) then return false
    return isIn (← subscript response (ascii "id")) request_ids
  | _ => .ok false

def toResponses (value : Json) : Except PyException (List Response) :=
  match value with
  | .array elements => elements.mapM fun i => do responseFromJson lib (← lib.dumps i)
  | _ => .error .typeError

/-! ### Progress -/

/-- The request ids that a notification is compared with are one or those of a batch. -/
def progressFilter (request_ids : List Bytes) (value : Json) : Except PyException Bool := do
  if !(← isProgressNotification value) then return false
  return isIn (← subscript (← subscript value (ascii "params")) (ascii "id")) request_ids

def toProgress (value : Json) : Except PyException Delivery := do
  let progress := (← lib.requestFromData value).params
  return .progress
    ⟨← subscript progress (ascii "operation"), ← subscript progress (ascii "amount")⟩ []

/-- The dictionary as it was left by the last notification. -/
def items (received : List Delivery) : Items :=
  match received.getLast? with
  | some (.progress _ items) => items
  | _ => []

/-- An id that is not a string has not passed the filter. -/
def toBatchProgress (request_ids : List Bytes) (received : List Delivery) (value : Json) :
    Except PyException Delivery := do
  let progress := (← lib.requestFromData value).params
  let amount ← subscript progress (ascii "amount")
  match ← subscript progress (ascii "id") with
  | .string id =>
    let items := setItem id amount (items received)
    let total ← lib.average (items.map Prod.snd) request_ids.length
    return .progress ⟨.string (ascii "Batch request"), total⟩ items
  | _ => .error .typeError

/-! ### The client -/

def jsonFilter (value : Bytes) : Except PyException Bool :=
  match lib.loads value with
  | .ok _ => .ok true
  | .error .valueError => .ok false
  | .error e => .error e

def jsonStream : Operator PyException Bytes Json :=
  (Operator.filter (jsonFilter lib)).pipe (.map lib.loads)

def notificationsFilter (value : Json) : Except PyException Bool := do
  if !(← isJsonRpcNotification value) then return false
  return !(← isProgressNotification value)

namespace Subscriber

def filter : Subscriber → Json → Except PyException Bool
  | notifications => notificationsFilter
  | request request_id => responseFilter request_id
  | batch request_ids => batchResponseFilter request_ids
  | progress request_id => progressFilter [request_id]
  | batchProgress request_ids => progressFilter request_ids

def map (received : List Delivery) (value : Json) : Subscriber → Except PyException Delivery
  | notifications => do return .notification (← lib.requestFromJson (← lib.dumps value))
  | request _ => do return .settled value (← onNext (← toResponse lib value))
  | batch _ => do return .responses value (← toResponses lib value)
  | progress _ => toProgress lib value
  | batchProgress request_ids => toBatchProgress lib request_ids received value

/-- `take(1)` for the futures. -/
def limit : Subscriber → Option ℕ
  | request _ | batch _ => some 1
  | _ => none

/-- Subscriptions to progress are disposed of when the future is done. -/
def disposable : Subscriber → Bool
  | progress _ | batchProgress _ => true
  | _ => false

end Subscriber

abbrev State := Hub.State Subscriber PyException Delivery
abbrev Event := Hub.Event Subscriber Bytes

def hub : Hub Subscriber PyException Bytes Delivery where
  limit := Subscriber.limit
  chain x received := ((jsonStream lib).pipe (.filter x.filter)).pipe
    (.map fun value => x.map lib received value)
  disposable := Subscriber.disposable

/-- A subscription to progress may end at any time. -/
def machine : Machine State Event := (hub lib).machine []

end Streams
end Rockets.Py
