import Rockets.JsClientFrames

set_option autoImplicit false

/-!
# Responses of batches in the JavaScript client

What the promise of a request is settled with, and what a `Response` of a batch makes of the
same response.
-/
namespace Rockets.Js

/-- The truth value: zero of either sign and what is not a number are false. -/
def Value.truthy : Value → Bool
  | none | some .null => false
  | some (.boolean b) => b
  | some (.numberInteger n) => n ≠ 0
  | some (.numberUnsigned n) => n ≠ 0
  | some (.numberFloat bits) => bits % 2 ^ 63 ≠ 0 && bits % 2 ^ 63 ≤ 0x7FF0000000000000
  | some (.string s) => !s.isEmpty
  | some (.array _) | some (.object _) => true

structure JsonRpcError where
  code : Value
  message : Value
  data : Value

inductive Reason where
  | typeError
  | jsonRpcError (error : JsonRpcError)

abbrev Settled := Except Reason Value

/-- The constructor takes its argument apart, which null and undefined cannot be. -/
def JsonRpcError.new (error : Value) : Reason :=
  match error with
  | none | some .null => .typeError
  | some _ => .jsonRpcError
    ⟨error.get (ascii "code"), error.get (ascii "message"), error.get (ascii "data")⟩

structure Response where
  id : Value
  response : Value

namespace Response

def new (response : Value) : Response where
  id := response.get (ascii "id")
  response := response

def json (r : Response) : Settled :=
  let error := r.response.get (ascii "error")
  let result := r.response.get (ascii "result")
  if result.truthy then .ok result else .error (JsonRpcError.new error)

end Response

namespace Delivery

def settled : Delivery → Option Settled
  | resolve result => some (.ok result)
  | reject error => some (.error (JsonRpcError.new error))
  | _ => none

def batchResponse : Delivery → Option (List Response)
  | responses (some (.array elements)) => some (elements.map fun r => .new (some r))
  | _ => none

end Delivery

def delivery (o : Observer Failure Delivery) : Option Delivery := o.received.head?

section Promises
variable {parse : Bytes → Value} {data : Bytes} {datas : List Bytes}

theorem delivery_of_expects {x : Subscriber} {d : Delivery} (hlimit : x.limit = some 1)
    (hpending : ((hub parse).observe x datas).status.isActive = true)
    (hharmless : isHarmless (parse data) = true) (h : x.expects (parse data) = some d) :
    delivery ((hub parse).observe x (datas ++ [data])) = some d := by
  have hchain : (hub parse).chain x [] data = .ok (some d) :=
    (chain_of_isHarmless x hharmless).trans (congrArg _ h)
  rw [Hub.observe_append_singleton, Hub.observe_of_active hlimit hpending, Hub.observeNext,
    Observer.next_of_active rfl _ hchain]
  rfl

theorem request_settled {id : Bytes}
    (hpending : ((hub parse).observe (.request id) datas).status.isActive = true)
    (hharmless : isHarmless (parse data) = true) (hresponse : isJsonRpcResponse (parse data) = true)
    (hid : ((parse data).get (ascii "id")).equals id = true) :
    (delivery ((hub parse).observe (.request id) (datas ++ [data]))).bind Delivery.settled =
      (settlement (parse data)).settled := by
  have hexpects : (Subscriber.request id).expects (parse data) = some (settlement (parse data)) :=
    if_pos (by rw [hresponse, hid]; rfl)
  rw [delivery_of_expects rfl hpending hharmless hexpects]
  rfl

theorem batch_settled {requests : List Bytes} {elements : List Json}
    (hpending : ((hub parse).observe (.batch requests) datas).status.isActive = true)
    (hharmless : isHarmless (parse data) = true) (hmessage : isMessage (parse data) = true)
    (helements : parse data = some (.array elements))
    (hfilter : createBatchResponseFilter (parse data) requests = true) :
    (delivery ((hub parse).observe (.batch requests) (datas ++ [data]))).bind
        Delivery.batchResponse = some (elements.map fun r => .new (some r)) := by
  have hexpects : (Subscriber.batch requests).expects (parse data) =
      some (.responses (parse data)) := if_pos (by rw [hmessage, hfilter]; rfl)
  rw [delivery_of_expects rfl hpending hharmless hexpects, helements]
  rfl

end Promises

/-- A response tells the same in a batch as it does to a request just when it has either an
error object or a result that counts as true. -/
theorem settled_eq_json_iff (value : Value) :
    (settlement value).settled = some (Response.new value).json ↔
      (value.get (ascii "result")).truthy = !isJsonRpcErrorObject (value.get (ascii "error")) := by
  cases herror : isJsonRpcErrorObject (value.get (ascii "error")) <;>
    cases hresult : (value.get (ascii "result")).truthy <;>
    simp [settlement, Response.json, Response.new, Delivery.settled, herror, hresult]

def zeroResult : Json := .object [(ascii "id", .string (ascii "a")),
  (ascii "jsonrpc", .string (ascii "2.0")), (ascii "result", .numberUnsigned 0)]

/-- A result of zero is taken for an error in a batch. -/
theorem zeroResult_rejected : ¬ ∀ value : Value, isJsonRpcResponse value = true →
    (value.get (ascii "id")).isString = true →
    (settlement value).settled = some (Response.new value).json := by
  intro hall
  have hsame : (some (.ok (some (.numberUnsigned 0))) : Option Settled) =
      some (.error .typeError) :=
    hall (some zeroResult) (by decide +kernel) (by decide +kernel)
  cases hsame

end Rockets.Js
