import Rockets.PyClient

set_option autoImplicit false

/-!
# Frames received by the Python client

Which frames are well-formed, what a subscriber is to get of them, and how the filters read
any value.
-/
namespace Rockets.Py

section Frames
variable (value : Json)

def hasOnly (keys : List Bytes) : Bool :=
  match value with
  | .object members => members.all fun m => keys.contains m.1
  | _ => false

def isVersioned : Bool := isStr (value.at' (ascii "jsonrpc")) (ascii "2.0")

/-- Method names with this beginning are reserved. -/
def isReserved (method : Bytes) : Bool := (ascii "rpc.").isPrefixOf method

def isMethod : Json → Bool
  | .string method => !isReserved method
  | _ => false

def isParams : Option Json → Bool
  | none | some (.array _) | some (.object _) => true
  | _ => false

/-- A well-formed request or notification. -/
def isCall : Bool :=
  hasOnly value [ascii "id", ascii "jsonrpc", ascii "method", ascii "params"] &&
    isVersioned value && isMethod (value.at' (ascii "method")) &&
    isParams (value.find? (ascii "params"))

def isNotification : Bool := isCall value && !value.count (ascii "id")

def isErrorObject : Bool :=
  hasOnly value [ascii "code", ascii "message", ascii "data"] &&
    (value.at' (ascii "code")).isNumberInteger && (value.at' (ascii "message")).isString

def answers (request_id : Bytes) : Bool := isStr (value.at' (ascii "id")) request_id

/-- A well-formed response to a request: with a result, or with an error. -/
def isResponse (request_id : Bytes) : Bool :=
  answers value request_id && isVersioned value &&
    (hasOnly value [ascii "id", ascii "jsonrpc", ascii "result"] && value.count (ascii "result") ||
      hasOnly value [ascii "error", ascii "id", ascii "jsonrpc"] &&
        isErrorObject (value.at' (ascii "error")))

/-- The elements have ids of the batch. -/
def answersBatch (request_ids : List Bytes) : Bool :=
  match value with
  | .array elements => elements.all fun element => isIn (element.at' (ascii "id")) request_ids
  | _ => false

/-- Well-formed responses to all requests of the batch and to no others. -/
def isBatchResponse (request_ids : List Bytes) : Bool :=
  match value with
  | .array elements => !elements.isEmpty &&
      (elements.all fun element => request_ids.any fun id => isResponse element id) &&
      request_ids.all fun id => elements.any fun element => answers element id
  | _ => false

/-- The parameters of what looks like a notification of progress. -/
def progressParams : Option Json :=
  if isStr (value.at' (ascii "method")) (ascii "progress") then value.find? (ascii "params")
  else none

def isProgress : Bool :=
  match isProgressNotification value with
  | .ok b => b
  | .error _ => false

/-! ### What is to be got -/

/-- What the client makes of a response: the result, unless it counts as false. -/
def taken : Json :=
  if truthy (value.at' (ascii "result")) then value.at' (ascii "result")
  else value.at' (ascii "error")

def errorOf : RequestError where
  code := value.at' (ascii "code")
  message := value.at' (ascii "message")
  data := value.at' (ascii "data")

def settlement : Outcome :=
  if (taken value).count (ascii "code") then .exception (errorOf (taken value))
  else .result (taken value)

def responseOf : Response where
  result := value.at' (ascii "result")
  error := value.at' (ascii "error")

def requestOf : Request where
  method := value.at' (ascii "method")
  params := value.at' (ascii "params")

/-- Subscribers to progress are not promised anything. -/
def Subscriber.wants : Subscriber → Option Delivery
  | notifications =>
    if isNotification value && !isProgress value then some (.notification (requestOf value))
    else none
  | request id => if isResponse value id then some (.settled value (settlement value)) else none
  | batch ids =>
    match value with
    | .array elements =>
      if isBatchResponse (.array elements) ids then
        some (.responses (.array elements) (elements.map responseOf))
      else none
    | _ => none
  | _ => none

end Frames

section Values
variable {value : Json} {key : Bytes}

theorem isObject_of_count (h : value.count key = true) : value.isObject = true := by
  cases value <;> first | rfl | cases h

theorem at_of_not_count (h : value.count key = false) : value.at' key = .null := by
  simp only [Json.count, Option.isSome_eq_false_iff, Option.isNone_iff_eq_none] at h
  simp only [Json.at', h, Option.getD_none]

theorem find?_of_count (h : value.count key = true) : value.find? key = some (value.at' key) := by
  obtain ⟨v, hv⟩ := Option.isSome_iff_exists.mp h
  simp only [Json.at', hv, Option.getD_some]

theorem count_of_at_ne_null (h : value.at' key ≠ .null) : value.count key = true := by
  by_contra hno
  exact h (at_of_not_count (Bool.not_eq_true _ ▸ hno))

theorem count_of_isStr {s : Bytes} (h : isStr (value.at' key) s = true) :
    value.count key = true := by
  refine count_of_at_ne_null fun hnull => ?_
  rw [hnull] at h
  cases h

theorem contains_of_isObject (h : value.isObject = true) (key : Bytes) :
    contains value key = .ok (value.count key) := by
  cases value <;> first | rfl | cases h

theorem subscript_of_count (h : value.count key = true) :
    subscript value key = .ok (value.at' key) := by
  have hfind := find?_of_count h
  cases value with
  | object members => simp only [subscript, hfind]
  | _ => cases h

end Values

section Predicates
variable (value : Json)

theorem isJsonRpcResponse_eq : isJsonRpcResponse value = .ok (value.count (ascii "id")) := by
  cases hobject : value.isObject with
  | true => rw [isJsonRpcResponse, if_pos hobject, contains_of_isObject hobject]
  | false =>
    cases value with
    | object members => cases hobject
    | _ => rfl

theorem isJsonRpcNotification_eq : isJsonRpcNotification value =
    .ok (value.count (ascii "method") && !value.count (ascii "id")) := by
  cases hobject : value.isObject with
  | true =>
    simp only [isJsonRpcNotification, hobject, contains_of_isObject hobject]
    cases value.count (ascii "method") <;> rfl
  | false =>
    cases value with
    | object members => cases hobject
    | _ => rfl

end Predicates
section Filters
variable {value : Json}

theorem isIn_null (ids : List Bytes) : isIn .null ids = false := by
  induction ids with
  | nil => rfl
  | cons id ids ih => exact ih

theorem at_eq_of_answers {id : Bytes} (h : answers value id = true) :
    value.at' (ascii "id") = .string id := by
  unfold answers at h
  cases hid : value.at' (ascii "id") with
  | string s => simpa [isStr, hid] using h
  | _ =>
    rw [hid] at h
    cases h

theorem responseFilter_eq (value : Json) (id : Bytes) :
    responseFilter id value = .ok (answers value id) := by
  unfold responseFilter answers
  rw [isJsonRpcResponse_eq]
  cases hcount : value.count (ascii "id") with
  | false =>
    rw [at_of_not_count hcount]
    rfl
  | true =>
    rw [subscript_of_count hcount]
    rfl

theorem allM_of_ok {f : Json → Except PyException Bool} {p : Json → Bool} {elements : List Json}
    (h : ∀ element, f element = .ok (p element)) : elements.allM f = .ok (elements.all p) := by
  induction elements with
  | nil => rfl
  | cons element elements ih =>
    rw [List.allM, h, List.all_cons]
    cases p element with
    | false => rfl
    | true => exact ih

theorem batchResponseFilter_eq (value : Json) (ids : List Bytes) :
    batchResponseFilter ids value = .ok (answersBatch value ids) := by
  cases value with
  | array elements =>
    refine allM_of_ok fun element => ?_
    rw [isJsonRpcResponse_eq]
    cases hcount : element.count (ascii "id") with
    | false =>
      rw [at_of_not_count hcount, isIn_null]
      rfl
    | true =>
      rw [subscript_of_count hcount]
      rfl
  | _ => rfl

end Filters
end Rockets.Py
