import Rockets.JsClient

set_option autoImplicit false

/-!
# Frames received by the JavaScript client

Which frames each subscriber is to get, and which frames make the shared observable fail.
-/
namespace Rockets.Js

section Frames
variable (value : Value)

def isVersioned : Bool := (value.get (ascii "jsonrpc")).equals JSON_RPC_VERSION

/-- A notification: of the version, with a method that is a string, and without an id. -/
def isNotification : Bool :=
  isVersioned value && (value.get (ascii "method")).isString && !(value.get (ascii "id")).isSome

def isRpcObject : Bool := isNotification value || isJsonRpcResponse value

/-- A JSON-RPC message: a notification, a response, or a batch of them. -/
def isMessage : Bool :=
  match value with
  | some (.array elements) => !elements.isEmpty && elements.all fun element => isRpcObject (some element)
  | _ => isRpcObject value

/-- The test for an own property is itself such a property. -/
def trips : Bool :=
  isVersioned value && (value.get (ascii "method")).isString &&
    (value.get (ascii "hasOwnProperty")).isSome

/-- The elements are looked at up to the first one that is no JSON-RPC object. -/
def areHarmless (elements : List Json) : Bool :=
  (elements.find? fun element => trips (some element) || !isRpcObject (some element)).all
    fun element => !trips (some element)

/-- A value whose predicates can be evaluated. -/
def isHarmless : Bool :=
  match value with
  | some (.array elements) => areHarmless elements
  | _ => !trips value

/-- What a subscriber is to get of a value. -/
def Subscriber.expects : Subscriber → Option Delivery
  | sub => if isMessage value then some (.message value) else none
  | notifications =>
    if isNotification value then some (.notification (toNotification value)) else none
  | request id =>
    if isJsonRpcResponse value && (value.get (ascii "id")).equals id then some (settlement value)
    else none
  | batch requests =>
    if isMessage value && createBatchResponseFilter value requests then some (.responses value)
    else none

end Frames

section Values
variable {value : Value} {key : Bytes}

theorem isObject_of_get (key : Bytes) (h : (value.get key).isSome = true) : value.isObject = true := by
  cases value with
  | none => cases h
  | some j => cases j <;> first | rfl | cases h

theorem isSome_of_isString (h : value.isString = true) : value.isSome = true := by
  cases value with
  | none => cases h
  | some j => rfl

theorem isString_of_equals {s : Bytes} (h : value.equals s = true) : value.isString = true := by
  cases value with
  | none => cases h
  | some j => cases j <;> first | rfl | cases h

theorem isJsonRpcNotification_eq (value : Value) : isJsonRpcNotification value =
    if trips value then .error .typeError else .ok (isNotification value) := by
  unfold isJsonRpcNotification trips isNotification isVersioned Value.hasOwnProperty
  cases hmethod : (value.get (ascii "method")).isString with
  | false => simp
  | true =>
    have hobject := isObject_of_get _ (isSome_of_isString hmethod)
    cases (value.get (ascii "jsonrpc")).equals JSON_RPC_VERSION with
    | false => simp
    | true => cases (value.get (ascii "hasOwnProperty")).isSome <;> simp [hobject]

theorem isJsonRpcObject_eq (value : Value) : isJsonRpcObject value =
    if trips value then .error .typeError else .ok (isRpcObject value) := by
  unfold isJsonRpcObject isRpcObject
  rw [isJsonRpcNotification_eq]
  cases trips value with
  | true => rfl
  | false => cases isNotification value <;> rfl

theorem allM_isJsonRpcObject (elements : List Json) :
    (elements.allM fun element => isJsonRpcObject (some element)) =
      if areHarmless elements then .ok (elements.all fun element => isRpcObject (some element))
      else .error .typeError := by
  induction elements with
  | nil => rfl
  | cons element elements ih =>
    unfold areHarmless at ih ⊢
    rw [List.allM, isJsonRpcObject_eq, List.find?_cons]
    cases htrips : trips (some element) with
    | true => simp [htrips]; rfl
    | false =>
      cases hobject : isRpcObject (some element) with
      | true => simpa [hobject, bind, Except.bind] using ih
      | false => simp [hobject, htrips]; rfl

theorem trips_array (elements : List Json) : trips (some (.array elements)) = false := rfl

theorem isRpcObject_array (elements : List Json) :
    isRpcObject (some (.array elements)) = false := rfl

theorem array_or_single (value : Value) : (∃ elements, value = some (.array elements)) ∨
    isHarmless value = !trips value ∧ isMessage value = isRpcObject value ∧
      isJsonRpcMessage value = isJsonRpcObject value := by
  match value with
  | some (.array elements) => exact .inl ⟨elements, rfl⟩
  | none => exact .inr ⟨rfl, rfl, rfl⟩
  | some .null => exact .inr ⟨rfl, rfl, rfl⟩
  | some (.boolean _) => exact .inr ⟨rfl, rfl, rfl⟩
  | some (.numberInteger _) => exact .inr ⟨rfl, rfl, rfl⟩
  | some (.numberUnsigned _) => exact .inr ⟨rfl, rfl, rfl⟩
  | some (.numberFloat _) => exact .inr ⟨rfl, rfl, rfl⟩
  | some (.string _) => exact .inr ⟨rfl, rfl, rfl⟩
  | some (.object _) => exact .inr ⟨rfl, rfl, rfl⟩

theorem isJsonRpcMessage_eq (value : Value) : isJsonRpcMessage value =
    if isHarmless value then .ok (isMessage value) else .error .typeError := by
  rcases array_or_single value with ⟨elements, rfl⟩ | ⟨hharmless, hmessage, hfilter⟩
  · have hobject : isJsonRpcObject (some (.array elements)) = .ok false := by
      rw [isJsonRpcObject_eq, trips_array, isRpcObject_array]
      rfl
    have hfilter : isJsonRpcMessage (some (.array elements)) =
        (elements.allM fun element => isJsonRpcObject (some element)) >>= fun all =>
          if !elements.isEmpty && all then .ok true else isJsonRpcObject (some (.array elements)) :=
      rfl
    rw [hfilter, allM_isJsonRpcObject, hobject]
    unfold isHarmless isMessage
    by_cases h : areHarmless elements = true
    · simp only [if_pos h]
      cases hall : (!elements.isEmpty && elements.all fun element => isRpcObject (some element)) <;>
        simp [bind, Except.bind, hall]
    · simp only [if_neg h]
      rfl
  · rw [hfilter, hharmless, hmessage, isJsonRpcObject_eq]
    cases trips value <;> rfl

theorem not_trips_of_isHarmless (h : isHarmless value = true) : trips value = false := by
  rcases array_or_single value with ⟨elements, rfl⟩ | ⟨hharmless, -⟩
  · rfl
  · simpa [hharmless] using h

theorem isMessage_of_isRpcObject (h : isRpcObject value = true) : isMessage value = true := by
  rcases array_or_single value with ⟨elements, rfl⟩ | ⟨-, hmessage, -⟩
  · cases h
  · rwa [hmessage]

theorem isRpcObject_of_isMessage (h : isMessage value = true)
    (hkey : (value.get key).isSome = true) : isRpcObject value = true := by
  rcases array_or_single value with ⟨elements, rfl⟩ | ⟨-, hmessage, -⟩
  · cases hkey
  · rwa [← hmessage]

/-- Of the messages, the response filter lets the responses with the id through. -/
theorem createResponseFilter_of_isMessage (h : isMessage value = true) (id : Bytes) :
    createResponseFilter value id =
      (isJsonRpcResponse value && (value.get (ascii "id")).equals id) := by
  cases hequals : (value.get (ascii "id")).equals id with
  | false => simp [createResponseFilter, hequals]
  | true =>
    have hstring := isString_of_equals hequals
    have hsome := isSome_of_isString hstring
    have hobject := isRpcObject_of_isMessage h hsome
    have hresponse : isJsonRpcResponse value = true := by
      simpa [isRpcObject, isNotification, hsome] using hobject
    have hversion : (value.get (ascii "jsonrpc")).equals JSON_RPC_VERSION = true := by
      simp only [isJsonRpcResponse, Bool.and_eq_true] at hresponse
      exact hresponse.1.1.2
    simp [createResponseFilter, hequals, hstring, hresponse, hversion, isObject_of_get _ hsome]

end Values

section Chains
variable {parse : Bytes → Value} {data : Bytes}

theorem json_eq (parse : Bytes → Value) (data : Bytes) : json parse data =
    if isHarmless (parse data) then
      .ok (if isMessage (parse data) then some (parse data) else none)
    else .error (.jsonRpcError SOCKET_PIPE_BROKEN) := by
  have hparsed : (Operator.map fun data => (.ok (parse data) : Except Failure Value)) data =
      .ok (some (parse data)) := Operator.map_of_ok rfl
  unfold json Operator.catchError
  rw [Operator.pipe_of_some hparsed, Operator.filter, isJsonRpcMessage_eq]
  by_cases h : isHarmless (parse data) = true
  · rw [if_pos h, if_pos h]
    rfl
  · rw [if_neg h, if_neg h]
    rfl

theorem chain_of_isHarmless (x : Subscriber) (h : isHarmless (parse data) = true) :
    x.chain parse data = .ok (x.expects (parse data)) := by
  have hjson := json_eq parse data
  rw [if_pos h] at hjson
  cases hmessage : isMessage (parse data) with
  | false =>
    have hobject : isRpcObject (parse data) = false := by
      by_contra hyes
      rw [isMessage_of_isRpcObject (Bool.not_eq_false _ ▸ hyes)] at hmessage
      cases hmessage
    obtain ⟨hnotification, hresponse⟩ := Bool.or_eq_false_iff.mp hobject
    rw [hmessage, if_neg (by decide)] at hjson
    have hnone : x.expects (parse data) = none := by
      cases x <;> simp [Subscriber.expects, hmessage, hnotification, hresponse]
    rw [hnone]
    cases x with
    | sub => exact Operator.pipe_of_none hjson
    | notifications => exact Operator.pipe_filter_map_of_none _ _ hjson
    | request id => exact Operator.pipe_filter_map_of_none _ _ hjson
    | batch requests => exact Operator.pipe_filter_map_of_none _ _ hjson
  | true =>
    rw [hmessage, if_pos rfl] at hjson
    cases x with
    | sub =>
      rw [Subscriber.expects, if_pos hmessage]
      exact (Operator.pipe_of_some hjson).trans (Operator.map_of_ok rfl)
    | notifications =>
      have hfilter : isJsonRpcNotification (parse data) = .ok (isNotification (parse data)) := by
        rw [isJsonRpcNotification_eq, not_trips_of_isHarmless h]
        rfl
      exact Operator.pipe_filter_map_of_some hjson hfilter fun _ => rfl
    | request id =>
      rw [Subscriber.expects, ← createResponseFilter_of_isMessage hmessage id]
      exact Operator.pipe_filter_map_of_some hjson rfl fun _ => rfl
    | batch requests =>
      rw [Subscriber.expects, hmessage, Bool.true_and]
      exact Operator.pipe_filter_map_of_some hjson rfl fun _ => rfl

theorem chain_sub_of_not_isHarmless (h : isHarmless (parse data) = false) :
    Subscriber.sub.chain parse data = .error (.jsonRpcError SOCKET_PIPE_BROKEN) := by
  have hjson := json_eq parse data
  rw [if_neg (by simp [h])] at hjson
  exact Operator.pipe_of_error hjson

end Chains

section Runs
variable {parse : Bytes → Value} {es : List Event} {s : State}

/-- Every subscriber has got what it was to get of the frames after its subscription, and no
subscription has failed. -/
def Served (parse : Bytes → Value) (es : List Event) (s : State) : Prop :=
  (hub parse).Served (fun x data => x.expects (parse data)) (.subscribe .sub :: es) s

theorem served_init : Served parse [] (machine parse).init :=
  .cons ⟨rfl, rfl, fun _ => rfl⟩ .nil

theorem served_next (h : Served parse es s) {e : Event}
    (hharmless : ∀ data, e = .emit data → isHarmless (parse data) = true) :
    Served parse (es ++ [e]) ((hub parse).next s e) := by
  have hlimit : ∀ x, (hub parse).limit x ≠ some 0 := by
    intro x
    cases x <;> simp [hub, Subscriber.limit]
  refine Hub.served_next hlimit h ?_
  cases e with
  | emit data => exact fun q _ _ => chain_of_isHarmless q.1 (hharmless data rfl)
  | subscribe x => trivial
  | dispose n => trivial

/-- The client's own subscription has failed. -/
def PipeBroken (s : State) : Prop := ∃ o rest, s = (.sub, o) :: rest ∧ o.status.isFailed = true

theorem pipeBroken_next (h : PipeBroken s) (e : Event) : PipeBroken ((hub parse).next s e) := by
  obtain ⟨o, rest, rfl, ho⟩ := h
  cases e with
  | subscribe x => exact ⟨o, _, rfl, ho⟩
  | emit data =>
    refine ⟨o, rest.map ((hub parse).receive data), ?_, ho⟩
    simp [Hub.next, Hub.receive, Observer.next_of_failed ho]
  | dispose n =>
    cases n with
    | zero => exact ⟨o, rest, rfl, ho⟩
    | succ n => exact ⟨o, rest.modify n (hub parse).disposed, rfl, ho⟩

/-- What is served to the client itself is not a failure. -/
theorem not_pipeBroken_of_served (h : Served parse es s) : ¬ PipeBroken s := by
  rintro ⟨o, rest, rfl, ho⟩
  cases h with
  | cons hsub _ => exact absurd (hsub.alive.symm.trans ho) (by decide)

theorem pipeBroken_frame (h : Served parse es s) {data : Bytes}
    (hharmless : isHarmless (parse data) = false) :
    PipeBroken ((hub parse).next s (.emit data)) := by
  cases h with
  | @cons _ q _ rest hsub _ =>
    obtain ⟨x, o⟩ := q
    obtain rfl : x = .sub := hsub.same
    obtain rfl := hsub.received rfl
    exact ⟨_, rest.map ((hub parse).receive data), rfl,
      Observer.isFailed_next_of_error rfl (chain_sub_of_not_isHarmless hharmless)⟩

/-- In a run every subscriber is served if and only if all frames are harmless. -/
theorem served_iff (h : (machine parse).Run es s) :
    Served parse es s ↔ ∀ data, .emit data ∈ es → isHarmless (parse data) = true := by
  have hall : (∀ data, .emit data ∈ es → isHarmless (parse data) = true) ∧ Served parse es s ∨
      (∃ data, .emit data ∈ es ∧ isHarmless (parse data) = false) ∧ PipeBroken s := by
    induction h with
    | nil => exact .inl ⟨nofun, served_init⟩
    | @snoc es u e _ _ _ ih =>
      rcases ih with ⟨hharmless, hserved⟩ | ⟨⟨data, hmem, hdata⟩, hbroken⟩
      · by_cases he : ∀ data, e = .emit data → isHarmless (parse data) = true
        · refine .inl ⟨fun data hmem => ?_, served_next hserved he⟩
          rcases List.mem_append.mp hmem with hmem | hmem
          · exact hharmless data hmem
          · exact he data (List.mem_singleton.mp hmem).symm
        · push Not at he
          obtain ⟨data, rfl, hdata⟩ := he
          have hdata : isHarmless (parse data) = false := Bool.not_eq_true _ ▸ hdata
          exact .inr ⟨⟨data, by simp, hdata⟩, pipeBroken_frame hserved hdata⟩
      · exact .inr ⟨⟨data, List.mem_append_left _ hmem, hdata⟩, pipeBroken_next hbroken e⟩
  rcases hall with ⟨hharmless, hserved⟩ | ⟨⟨data, hmem, hdata⟩, hbroken⟩
  · exact iff_of_true hserved hharmless
  · refine iff_of_false (fun hserved => not_pipeBroken_of_served hserved hbroken) fun hharmless => ?_
    exact absurd (hdata.symm.trans (hharmless data hmem)) (by decide)

end Runs

section Samples

def ownPropertyMessage : Json := .object [(ascii "hasOwnProperty", .numberUnsigned 1),
  (ascii "jsonrpc", .string (ascii "2.0")), (ascii "method", .string (ascii "hello"))]

def helloNotification : Json := .object [(ascii "jsonrpc", .string (ascii "2.0")),
  (ascii "method", .string (ascii "hello"))]

def resultResponse : Json := .object [(ascii "id", .string (ascii "a")),
  (ascii "jsonrpc", .string (ascii "2.0")), (ascii "result", .boolean false)]

def ownPropertyText : Bytes :=
  ascii "\x7b\"jsonrpc\": \"2.0\", \"method\": \"hello\", \"hasOwnProperty\": 1\x7d"

def helloText : Bytes := ascii "\x7b\"jsonrpc\": \"2.0\", \"method\": \"hello\"\x7d"

def resultText : Bytes := ascii "\x7b\"id\": \"a\", \"jsonrpc\": \"2.0\", \"result\": false\x7d"

/-- A parser that knows three texts. -/
def sampleParse (data : Bytes) : Value :=
  if data = ownPropertyText then some ownPropertyMessage
  else if data = helloText then some helloNotification
  else if data = resultText then some resultResponse
  else none

def noisyEvents : List Event := [.subscribe .notifications, .emit (ascii "noise"),
  .subscribe (.request (ascii "a")), .emit helloText, .emit resultText]

theorem noisyEvents_served :
    ∃ s, (machine sampleParse).Run noisyEvents s ∧ Served sampleParse noisyEvents s := by
  have hrun := Hub.run_foldl (H := hub sampleParse) [(.sub, {})] noisyEvents
  refine ⟨_, hrun, (served_iff hrun).mpr fun data hmem => ?_⟩
  simp only [noisyEvents, List.mem_cons, List.not_mem_nil, reduceCtorEq, Hub.Event.emit.injEq,
    or_false, false_or] at hmem
  rcases hmem with rfl | rfl | rfl <;> decide +kernel

/-- A frame with one unusual property ends the subscriptions of the client, those of pending
requests among them. -/
theorem ownProperty_breaks :
    ¬ ∀ es s, (machine sampleParse).Run es s → Served sampleParse es s := by
  intro hall
  have hserved := hall [.subscribe (.request (ascii "a"))] _ (Hub.run_foldl _ _)
  have hserved' := hall [.subscribe (.request (ascii "a")), .emit ownPropertyText] _ (Hub.run_foldl _ _)
  exact not_pipeBroken_of_served hserved' (pipeBroken_frame hserved (by decide +kernel))

end Samples
end Rockets.Js
