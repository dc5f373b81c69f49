import Rockets.PyClientFrames

set_option autoImplicit false

/-!
# Subscribers of the Python client

Which frames no filter and no mapping fails on. A frame on which one of them does ends the
subscription, so that nothing that comes later is received.
-/
namespace Rockets.Py

section Condition
variable (lib : Library)

/-- The value can be written out and read again. -/
def Rewritable (value : Json) : Prop :=
  ∃ text, lib.dumps value = .ok text ∧ lib.loads text = .ok value

/-- A result with a code is not taken for an error, or has the form of one. -/
def isSettling (value : Json) : Bool :=
  !(taken value).count (ascii "code") ||
    hasOnly (taken value) [ascii "code", ascii "message", ascii "data"] &&
      (taken value).count (ascii "message")

/-- What looks like progress for one of the ids is well-formed. -/
def TolerableProgress (request_ids : List Bytes) (value : Json) (Q : Json → Prop) : Prop :=
  ∀ params, progressParams value = some params →
    contains params (ascii "id") = .ok false ∨ params.isObject = true ∧
      (isIn (params.at' (ascii "id")) request_ids = true → isCall value = true ∧ Q params)

/-- What looks like a message for a subscriber is a well-formed one. -/
def Subscriber.Tolerates (received : List Delivery) (value : Json) : Subscriber → Prop
  | notifications => value.count (ascii "method") = true → value.count (ascii "id") = false →
      isProgress value = true ∨ isNotification value = true ∧ Rewritable lib value
  | request id => answers value id = true →
      isResponse value id = true ∧ isSettling value = true ∧ Rewritable lib value
  | batch ids => answersBatch value ids = true → isBatchResponse value ids = true ∧
      ∀ elements, value = .array elements → ∀ element ∈ elements, Rewritable lib element
  | progress id => TolerableProgress [id] value fun params =>
      params.count (ascii "operation") = true ∧ params.count (ascii "amount") = true
  | batchProgress ids => TolerableProgress ids value fun params =>
      params.count (ascii "amount") = true ∧ ∀ id, params.at' (ascii "id") = .string id →
        ∃ total, lib.average
          ((setItem id (params.at' (ascii "amount")) (items received)).map Prod.snd)
          ids.length = .ok total

/-- What is to be got of a frame. -/
def wanted (x : Subscriber) (data : Bytes) : Option Delivery :=
  (lib.loads data).toOption.bind fun value => x.wants value

/-- Every subscriber to notifications and every future has got what it was to get of the
frames after its subscription, and no subscription has failed. -/
def Served (es : List Event) (s : State) : Prop :=
  (hub lib).Served (wanted lib) es s

/-- What is known of the libraries: well-formed requests and responses are accepted. -/
structure Library.Documented : Prop where
  from_json : ∀ text value, lib.loads text = .ok value →
    lib.requestFromJson text = lib.requestFromData value
  from_data : ∀ value, isCall value = true → lib.requestFromData value = .ok (requestOf value)
  response : ∀ members id, isResponse (.object members) id = true →
    lib.response (Entries.set (ascii "_id") (.string id) members) =
      .ok (responseOf (.object members))

end Condition

section Mappings
variable {lib : Library} {value : Json} {id : Bytes}

theorem responseFromJson_of_isResponse (hlib : lib.Documented) (h : isResponse value id = true)
    {text : Bytes} (hloads : lib.loads text = .ok value) :
    responseFromJson lib text = .ok (responseOf value) := by
  have hanswers : answers value id = true := by
    simp only [isResponse, Bool.and_eq_true] at h
    exact h.1.1
  have hsubscript : subscript value (ascii "id") = .ok (.string id) := by
    rw [subscript_of_count (count_of_isStr hanswers), at_eq_of_answers hanswers]
  have hobject := isObject_of_count (count_of_isStr hanswers)
  simp only [responseFromJson, hloads, responseFromData, bind, Except.bind, hsubscript]
  cases value with
  | object members => exact hlib.response members id h
  | _ => cases hobject

theorem toResponse_of_isResponse (hlib : lib.Documented) (h : isResponse value id = true)
    (hrewritable : Rewritable lib value) : toResponse lib value = .ok (taken value) := by
  obtain ⟨text, hdumps, hloads⟩ := hrewritable
  simp only [toResponse, hdumps, bind, Except.bind, responseFromJson_of_isResponse hlib h hloads]
  unfold taken responseOf
  cases truthy (value.at' (ascii "result")) <;> rfl

theorem requestError_of_hasOnly {members : List (Bytes × Json)}
    (honly : hasOnly (.object members) [ascii "code", ascii "message", ascii "data"] = true)
    (hcode : Json.count (.object members) (ascii "code") = true)
    (hmessage : Json.count (.object members) (ascii "message") = true) :
    requestError members = .ok (errorOf (.object members)) := by
  have hcode : Entries.find? (ascii "code") members = _ := find?_of_count hcode
  have hmessage : Entries.find? (ascii "message") members = _ := find?_of_count hmessage
  simp only [hasOnly] at honly
  rw [requestError, if_pos honly, hcode, hmessage]
  rfl

theorem mapM_of_ok {β : Type} {f : Json → Except PyException β} {g : Json → β}
    {elements : List Json} (h : ∀ element ∈ elements, f element = .ok (g element)) :
    elements.mapM f = .ok (elements.map g) := by
  induction elements with
  | nil => rfl
  | cons element elements ih =>
    rw [List.mapM_cons, h element List.mem_cons_self,
      ih fun element' hmem => h element' (List.mem_cons_of_mem _ hmem)]
    rfl

end Mappings

section Chains
variable {lib : Library} {value : Json} {data : Bytes} {received : List Delivery} {x : Subscriber}

/-- What a subscriber is given of a value, where neither its filter nor its mapping fails. -/
inductive Handles (lib : Library) (x : Subscriber) (received : List Delivery) (value : Json) :
    Option Delivery → Prop where
  | drop (hfilter : x.filter value = .ok false) : Handles lib x received value none
  | deliver {d : Delivery} (hfilter : x.filter value = .ok true)
      (hmap : x.map lib received value = .ok d) : Handles lib x received value (some d)

theorem jsonStream_of_loads (h : lib.loads data = .ok value) :
    jsonStream lib data = .ok (some value) := by
  have hfilter : jsonFilter lib data = .ok true := by rw [jsonFilter, h]
  exact (Operator.pipe_of_some (Operator.filter_of_ok hfilter)).trans (Operator.map_of_ok h)

theorem jsonStream_of_valueError (h : lib.loads data = .error .valueError) :
    jsonStream lib data = .ok none := by
  have hfilter : jsonFilter lib data = .ok false := by rw [jsonFilter, h]
  exact Operator.pipe_of_none (Operator.filter_of_ok hfilter)

theorem chain_of_filter (hloads : lib.loads data = .ok value) (hfilter : x.filter value = .ok true) :
    (hub lib).chain x received data = (x.map lib received value).map some := by
  have hstream := Operator.pipe_of_some (g := Operator.filter x.filter) (jsonStream_of_loads hloads)
  exact Operator.pipe_of_some (hstream.trans (Operator.filter_of_ok hfilter))

theorem chain_of_handles {out : Option Delivery} (hloads : lib.loads data = .ok value)
    (h : Handles lib x received value out) : (hub lib).chain x received data = .ok out := by
  cases h with
  | drop hfilter =>
    have hjson := Operator.pipe_of_some (g := Operator.filter x.filter) (jsonStream_of_loads hloads)
    exact Operator.pipe_of_none (hjson.trans (Operator.filter_of_ok hfilter))
  | deliver hfilter hmap =>
    rw [chain_of_filter hloads hfilter, hmap]
    rfl

theorem answersBatch_of_isBatchResponse {ids : List Bytes}
    (h : isBatchResponse value ids = true) : answersBatch value ids = true := by
  cases value with
  | array elements =>
    simp only [isBatchResponse, Bool.and_eq_true, List.all_eq_true] at h
    refine List.all_eq_true.mpr fun element hmem => ?_
    obtain ⟨id, hid, hresponse⟩ := List.any_eq_true.mp (h.1.2 element hmem)
    simp only [isResponse, Bool.and_eq_true] at hresponse
    exact List.any_eq_true.mpr ⟨id, hid, hresponse.1.1⟩
  | _ => cases h

theorem batch_handles (hlib : lib.Documented) {ids : List Bytes}
    (h : (Subscriber.batch ids).Tolerates lib received value) :
    Handles lib (.batch ids) received value ((Subscriber.batch ids).wants value) := by
  have hfilter := batchResponseFilter_eq value ids
  cases hanswers : answersBatch value ids with
  | false =>
    have hnot : isBatchResponse value ids = false := by
      by_contra hyes
      rw [answersBatch_of_isBatchResponse (Bool.not_eq_false _ ▸ hyes)] at hanswers
      cases hanswers
    have hnone : (Subscriber.batch ids).wants value = none := by
      cases value with
      | array elements => exact if_neg (by simp [hnot])
      | _ => rfl
    rw [hnone]
    exact .drop (hfilter.trans (congrArg _ hanswers))
  | true =>
    obtain ⟨hresponse, hrewritable⟩ := h hanswers
    cases value with
    | array elements =>
      rw [Subscriber.wants, if_pos hresponse]
      refine .deliver (hfilter.trans (congrArg _ hanswers)) ?_
      have hmapM : toResponses lib (.array elements) = .ok (elements.map responseOf) := by
        refine mapM_of_ok fun element hmem => ?_
        simp only [isBatchResponse, Bool.and_eq_true, List.all_eq_true] at hresponse
        obtain ⟨id, -, hid⟩ := List.any_eq_true.mp (hresponse.1.2 element hmem)
        obtain ⟨text, hdumps, hloads⟩ := hrewritable elements rfl element hmem
        rw [hdumps]
        exact responseFromJson_of_isResponse hlib hid hloads
      simp only [Subscriber.map, hmapM]
      rfl
    | _ => cases hanswers

end Chains

section Runs
variable {lib : Library} {es : List Event} {s : State}

end Runs
section Samples

def helloNotification : Json := .object [(ascii "jsonrpc", .string (ascii "2.0")),
  (ascii "method", .string (ascii "hello"))]

def resultResponse : Json := .object [(ascii "id", .string (ascii "a")),
  (ascii "jsonrpc", .string (ascii "2.0")), (ascii "result", .numberUnsigned 7)]

def scalarProgress : Json := .object [(ascii "jsonrpc", .string (ascii "2.0")),
  (ascii "method", .string (ascii "progress")), (ascii "params", .numberUnsigned 5)]

def helloText : Bytes := ascii "\x7b\"jsonrpc\": \"2.0\", \"method\": \"hello\"\x7d"

def resultText : Bytes := ascii "\x7b\"id\": \"a\", \"jsonrpc\": \"2.0\", \"result\": 7\x7d"

def scalarProgressText : Bytes :=
  ascii "\x7b\"jsonrpc\": \"2.0\", \"method\": \"progress\", \"params\": 5\x7d"

def sampleFromData (value : Json) : Except PyException Request :=
  if hasOnly value [ascii "id", ascii "jsonrpc", ascii "method", ascii "params"] &&
      value.count (ascii "jsonrpc") && isMethod (value.at' (ascii "method")) &&
      (isParams (value.find? (ascii "params")) || (value.at' (ascii "params")).isNull) then
    .ok (requestOf value)
  else .error .invalidRequestException

def sampleResponse (members : List (Bytes × Json)) : Except PyException Response :=
  let value := Json.object members
  let id := value.at' (ascii "_id")
  let error := value.at' (ascii "error")
  if truthy error && !isErrorObject error || !(id.isString || id.isNumberInteger || id.isNull) ||
      !(value.count (ascii "result") || value.count (ascii "error")) then
    .error .valueError
  else .ok { result := value.at' (ascii "result"), error := if truthy error then error else .null }

def sampleLoads (text : Bytes) : Except PyException Json :=
  if text = helloText then .ok helloNotification
  else if text = resultText then .ok resultResponse
  else if text = scalarProgressText then .ok scalarProgress
  else .error .valueError

/-- Libraries that know three texts. -/
def sampleLibrary : Library where
  loads := sampleLoads
  dumps value :=
    if value.count (ascii "params") then .ok scalarProgressText
    else if value.count (ascii "method") then .ok helloText
    else .ok resultText
  requestFromJson text := sampleLoads text >>= sampleFromData
  requestFromData := sampleFromData
  response := sampleResponse
  average _ _ := .error .typeError

theorem at_of_hasOnly {value : Json} {keys : List Bytes} (h : hasOnly value keys = true)
    {key : Bytes} (hkey : key ∉ keys) : value.at' key = .null := by
  cases value with
  | object members =>
    have hnone : Entries.find? key members = none := by
      refine Entries.find?_eq_none fun e he heq => hkey ?_
      exact heq ▸ List.contains_iff_mem.mp (List.all_eq_true.mp h e he)
    simp only [Json.at', Json.find?, hnone, Option.getD_none]
  | _ => cases h

theorem truthy_of_isErrorObject {value : Json} (h : isErrorObject value = true) :
    truthy value = true := by
  simp only [isErrorObject, Bool.and_eq_true] at h
  cases value with
  | object members =>
    cases members with
    | nil => exact absurd h.1.2 (by decide)
    | cons m ms => rfl
  | _ => cases h.1.1

theorem find?_set_id (members : List (Bytes × Json)) (id : Json) (key : Bytes)
    (hkey : key ≠ ascii "_id") :
    Json.find? key (.object (Entries.set (ascii "_id") id members)) =
      Json.find? key (.object members) := by
  simp only [Json.find?, Entries.find?_set, if_neg hkey]

theorem sampleResponse_of_isResponse {members : List (Bytes × Json)} {id : Bytes}
    (h : isResponse (.object members) id = true) :
    sampleResponse (Entries.set (ascii "_id") (.string id) members) =
      .ok (responseOf (.object members)) := by
  simp only [isResponse, Bool.and_eq_true, Bool.or_eq_true] at h
  have hid : Json.at' (.object (Entries.set (ascii "_id") (.string id) members)) (ascii "_id") =
      .string id := by
    simp only [Json.at', Json.find?, Entries.find?_set, if_true, Option.getD_some]
  have hresult := find?_set_id members (.string id) (ascii "result") (by decide)
  have herror := find?_set_id members (.string id) (ascii "error") (by decide)
  simp only [sampleResponse, hid, responseOf]
  simp only [Json.at', Json.count, hresult, herror]
  rcases h.2 with ⟨honly, hcount⟩ | ⟨-, hobject⟩
  · have hnull : Json.at' (.object members) (ascii "error") = .null :=
      at_of_hasOnly honly (by decide)
    rw [Json.at'] at hnull
    rw [Json.count] at hcount
    simp [hnull, hcount, truthy, Json.isString]
  · have htruthy := truthy_of_isErrorObject hobject
    have hcount : Json.count (.object members) (ascii "error") = true := by
      refine count_of_at_ne_null fun hnull => ?_
      rw [hnull] at htruthy
      cases htruthy
    rw [Json.at'] at hobject htruthy
    rw [Json.count] at hcount
    simp [hobject, htruthy, hcount, Json.isString]

theorem sampleLibrary_documented : sampleLibrary.Documented where
  from_json text value h := by
    have h : sampleLoads text = .ok value := h
    simp only [sampleLibrary, h]
    rfl
  from_data value h := by
    simp only [isCall, Bool.and_eq_true] at h
    obtain ⟨⟨⟨honly, hversion⟩, hmethod⟩, hparams⟩ := h
    simp only [sampleLibrary, sampleFromData, honly, count_of_isStr hversion, hmethod, hparams,
      Bool.and_self, Bool.true_or, if_true]
  response _ _ := sampleResponse_of_isResponse

end Samples
end Rockets.Py
