import Rockets.Json
import Rockets.Observable

set_option autoImplicit false

/-!
# The JavaScript client

What the streams of `Client` make of the frames it receives. A value is parsed JSON or
undefined; none of the properties that are read is one of `Object.prototype`, and arrays have
none of them. The parser is a parameter: nothing stands for a text that it rejects. The
streams of progress are left out.
-/
namespace Rockets.Js

def JSON_RPC_VERSION : Bytes := ascii "2.0"
def SOCKET_PIPE_BROKEN : ℤ := -30101

/-- What a stream fails with: an exception of the language, or an error of the client. -/
inductive Failure where
  | typeError
  | jsonRpcError (code : ℤ)

abbrev Value := Option Json

namespace Value

def isObject : Value → Bool
  | some (.object _) | some (.array _) => true
  | _ => false

def isString : Value → Bool
  | some (.string _) => true
  | _ => false

def isNumber : Value → Bool
  | some j => j.isNumber
  | none => false

def isNull : Value → Bool
  | some .null => true
  | _ => false

def equals (value : Value) (s : Bytes) : Bool :=
  match value with
  | some (.string t) => t = s
  | _ => false

def get (value : Value) (key : Bytes) : Value := value.bind (Json.find? key)

/-- The method as it is called on a value: an own property of that name is called in its
place, and no parsed value is a function. -/
def hasOwnProperty (value : Value) (key : Bytes) : Except Failure Bool :=
  if (value.get (ascii "hasOwnProperty")).isSome then .error .typeError
  else .ok (value.get key).isSome

end Value

section Predicates
variable (value : Value)

def isJsonRpcNotification : Except Failure Bool :=
  if value.isObject && (value.get (ascii "jsonrpc")).equals JSON_RPC_VERSION &&
      (value.get (ascii "method")).isString then do
    return !(← value.hasOwnProperty (ascii "id"))
  else .ok false

def isJsonRpcErrorObject : Bool :=
  value.isObject && (value.get (ascii "code")).isNumber && (value.get (ascii "message")).isString

def isJsonRpcResponse : Bool :=
  value.isObject && (value.get (ascii "jsonrpc")).equals JSON_RPC_VERSION &&
    ((value.get (ascii "id")).isString || (value.get (ascii "id")).isNumber ||
      (value.get (ascii "id")).isNull) &&
    ((value.get (ascii "result")).isSome || isJsonRpcErrorObject (value.get (ascii "error")))

def isJsonRpcObject : Except Failure Bool := do
  if ← isJsonRpcNotification value then return true
  return isJsonRpcResponse value

def isJsonRpcMessage : Except Failure Bool := do
  match value with
  | some (.array elements) =>
    if !elements.isEmpty && (← elements.allM fun element => isJsonRpcObject (some element)) then
      return true
    isJsonRpcObject value
  | _ => isJsonRpcObject value

def createResponseFilter (id : Bytes) : Bool :=
  value.isObject && (value.get (ascii "jsonrpc")).equals JSON_RPC_VERSION &&
    (value.get (ascii "id")).isString && (value.get (ascii "id")).equals id

def createBatchResponseFilter (requests : List Bytes) : Bool :=
  match value with
  | some (.array elements) =>
    (elements.all fun element => isJsonRpcResponse (some element)) &&
      requests.all fun id => elements.any fun item => (Value.get (some item) (ascii "id")).equals id
  | _ => false

end Predicates

structure Notification where
  method : Value
  params : Value

def toNotification (json : Value) : Notification where
  method := json.get (ascii "method")
  params := if (json.get (ascii "params")).isObject then json.get (ascii "params") else none

/-- What is done with a value: a message of which nothing is made, a notification for a
subscriber, or the way in which a promise is settled. -/
inductive Delivery where
  | message (json : Value)
  | notification (n : Notification)
  | resolve (result : Value)
  | reject (error : Value)
  | responses (json : Value)

def settlement (response : Value) : Delivery :=
  if isJsonRpcErrorObject (response.get (ascii "error")) then .reject (response.get (ascii "error"))
  else .resolve (response.get (ascii "result"))

/-- Who subscribes to the messages: the client itself when it is made, subscribers to its
notifications, and the promises of requests and batches. -/
inductive Subscriber where
  | sub
  | notifications
  | request (id : Bytes)
  | batch (requests : List Bytes)

section Streams
variable (parse : Bytes → Value)

/-- The observable `json`, for which each subscriber runs the whole chain. -/
def json : Operator Failure Bytes Value :=
  ((Operator.map fun data => .ok (parse data)).pipe (.filter isJsonRpcMessage)).catchError
    fun _ => .jsonRpcError SOCKET_PIPE_BROKEN

namespace Subscriber

def chain : Subscriber → Operator Failure Bytes Delivery
  | sub => (json parse).pipe (.map fun value => .ok (.message value))
  | notifications => ((json parse).pipe (.filter isJsonRpcNotification)).pipe
      (.map fun value => .ok (.notification (toNotification value)))
  | request id => ((json parse).pipe (.filter fun value => .ok (createResponseFilter value id))).pipe
      (.map fun value => .ok (settlement value))
  | batch requests =>
    ((json parse).pipe (.filter fun value => .ok (createBatchResponseFilter value requests))).pipe
      (.map fun value => .ok (.responses value))

/-- `take(1)` in the promises. -/
def limit : Subscriber → Option ℕ
  | sub | notifications => none
  | request _ | batch _ => some 1

end Subscriber

/-! ### The client -/

abbrev State := Hub.State Subscriber Failure Delivery

abbrev Event := Hub.Event Subscriber Bytes

/-- Subscribers that unsubscribe are left out. -/
def hub : Hub Subscriber Failure Bytes Delivery where
  limit := Subscriber.limit
  chain x _ := x.chain parse
  disposable _ := false

/-- The client subscribes to its own messages when it is made. -/
def machine : Machine State Event := (hub parse).machine [(.sub, {})]

end Streams
end Rockets.Js
