import Rockets.JsClientFrames
import Rockets.JsonRpcBatches

set_option autoImplicit false

/-!
# Batches of the JavaScript client

A batch as the client sends it, processed by the server, and the reply as the filters of the
client see it. The parser of the client undoes `dump`, too.
-/
namespace Rockets.Js
open JsonRpc

/-- A `Request`, or a `Notification` without an id; `setParams` takes objects and arrays only. -/
structure Item where
  id : Option Bytes
  method : Bytes
  params : Option Json
  takenOver : ∀ p, params = some p → p.isObject = true ∨ p.isArray = true

def Item.json (item : Item) : Json :=
  .ofMembers ([(ascii "jsonrpc", .string JSON_RPC_VERSION), (ascii "method", .string item.method)] ++
    (item.id.map fun id => (ascii "id", Json.string id)).toList ++
    (item.params.map fun params => (ascii "params", params)).toList)

/-- The ids of the requests among the items. -/
def requests (items : List Item) : List Bytes := items.filterMap Item.id

/-- The reply is a message for the client, settles the batch with one response for each of
its requests in their order, and no other pending batch. -/
structure Answers (items : List Item) (value : Value) : Prop where
  message : isJsonRpcMessage value = .ok true
  own : createBatchResponseFilter value (requests items) = true
  responses : ∃ elements, value = some (.array elements) ∧
    elements.map (Json.find? (ascii "id")) = (requests items).map fun id => some (.string id)
  foreign : ∀ others : List Bytes, others ≠ [] → (∀ id ∈ others, id ∉ requests items) →
    createBatchResponseFilter value others = false

section Items
variable {α τ : Type} {lib : JsonLib} {recv : Receiver α} {clientID : ℕ} {item : Item}

theorem isObject_json (item : Item) : item.json.isObject = true := rfl

theorem find?_json (item : Item) :
    item.json.find? (ascii "jsonrpc") = some (.string JSON_RPC_VERSION) ∧
      item.json.find? (ascii "method") = some (.string item.method) ∧
      item.json.find? (ascii "id") = item.id.map Json.string ∧
      item.json.find? (ascii "params") = item.params := by
  obtain ⟨id, method, params, -⟩ := item
  cases id <;> cases params <;> exact ⟨rfl, rfl, rfl, rfl⟩

theorem requestID_json (item : Item) :
    requestID item.json = (item.id.map Json.string).getD .null := by
  rw [requestID, Json.count, Json.at', (find?_json item).2.2.1]
  cases item.id <;> rfl

theorem isValidJsonRpcRequest_json (item : Item) : isValidJsonRpcRequest item.json = .ok true := by
  obtain ⟨hversion, hmethod, hid, hparams⟩ := find?_json item
  simp only [isValidJsonRpcRequest, Json.count, Json.at', hversion, hmethod, hid, hparams]
  cases h : item.params with
  | none => cases item.id <;> rfl
  | some p => cases item.id <;> rcases item.takenOver p h with hp | hp <;> simp [hp] <;> rfl

theorem getString_json (item : Item) :
    (item.json.at' (ascii "method")).getString = .ok item.method := by
  rw [Json.at', (find?_json item).2.1]
  rfl

theorem of_asCall {c : Call} (h : asCall recv item.json = some c) :
    c.id = (item.id.map Json.string).getD .null ∧ c.method = item.method := by
  unfold asCall at h
  rw [isValidJsonRpcRequest_json, getString_json] at h
  split at h
  · rename_i hmethod _
    split_ifs at h
    obtain rfl := Option.some.inj h
    exact ⟨requestID_json item, (Except.ok.inj hmethod).symm⟩
  · cases h

theorem not_isCancelCall (hmethod : item.method ≠ cancelMethodName) {c : Call}
    (h : asCall recv item.json = some c) : isCancelCall recv c = false := by
  rw [isCancelCall, (of_asCall h).2, decide_eq_false hmethod, Bool.and_false]

theorem handled_json (hmethod : item.method ≠ cancelMethodName) (w : World α τ) :
    Handled lib recv item.json w := by
  refine ⟨?_, ?_⟩
  · rw [hasReadableVersion, (find?_json item).1]
    rfl
  · unfold cancelsEmptyResponder
    cases hcall : asCall recv item.json with
    | none => rfl
    | some c => simp [not_isCancelCall hmethod hcall]

/-- What a request with the id is answered with. -/
inductive IsReply (id : Bytes) : Json → Prop where
  | result (result : Json) : IsReply id (makeResponseJson result (.string id))
  | error {error : Json} {code : ℤ} {message : Bytes}
      (hcode : error.find? (ascii "code") = some (.numberInteger code))
      (hmessage : error.find? (ascii "message") = some (.string message)) :
      IsReply id (makeErrorResponseJson error (.string id))

theorem IsReply.isNull {id : Bytes} {j : Json} (h : IsReply id j) : j.isNull = false := by
  cases h <;> rfl

theorem isReply_of_makeErrorResponse {error : JsonRpc.Response.Error} {id : Bytes} {j : Json}
    (h : makeErrorResponse lib error (.string id) = .ok j) : IsReply id j := by
  obtain ⟨e, rfl, hcode, hmessage⟩ := makeErrorResponse_reports h
  exact .error hcode hmessage

theorem isReply_of_makeResponse {rep : JsonRpc.Response} (hrep : rep.Encoded lib) {id : Bytes}
    {j : Json} (h : makeResponse lib rep (.string id) = .ok j) : IsReply id j := by
  unfold makeResponse at h
  unfold Response.Encoded at hrep
  split_ifs at h hrep with herror
  · exact isReply_of_makeErrorResponse h
  · obtain ⟨result, hu, hparse⟩ := hrep
    simp only [makeResponseText, JsonLib.parseOrThrow, hparse] at h
    exact Except.ok.inj h ▸ .result result

/-- A request is answered with its id, a notification is not. -/
def IsReplyTo (item : Item) (j : Json) : Prop :=
  match item.id with
  | none => j = .null
  | some id => IsReply id j

theorem isReplyTo_commandReply (henc : recv.Encodes lib)
    (hmethod : item.method ≠ cancelMethodName) {app : α} {j : Json}
    (h : commandReply lib recv clientID item.json app = .ok j) : IsReplyTo item j := by
  unfold IsReplyTo
  cases hcall : asCall recv item.json with
  | none =>
    simp only [commandReply, hcall, refusal, requestID_json] at h
    cases hid : item.id with
    | none =>
      rw [hid] at h
      exact (Except.ok.inj h).symm
    | some id =>
      rw [hid] at h
      exact isReply_of_makeErrorResponse h
  | some c =>
    have hcancel := not_isCancelCall hmethod hcall
    obtain ⟨deed, hdeed⟩ := deed_of_call lib clientID hcall hcancel app
    rw [commandReply_of_deed hcall hcancel hdeed, replyJson, (of_asCall hcall).1] at h
    cases hid : item.id with
    | none =>
      rw [hid] at h
      exact (Except.ok.inj h).symm
    | some id =>
      rw [hid] at h
      exact isReply_of_makeResponse (henc.deed hdeed) h

variable (clientID) in
/-- The loop of the server collects one response for each request, in their order. -/
theorem processValidBatchBlocking_items (henc : recv.Encodes lib) {items : List Item}
    (hmethods : ∀ item ∈ items, item.method ≠ cancelMethodName)
    (hu : Json.utf8Elements (items.map Item.json) = true) (w : World α τ) (responses : List Json) :
    ∃ js v, (RequestProcessor.processValidBatchBlocking lib recv clientID (items.map Item.json)
        responses).run w =
        .ok (if (responses ++ js).isEmpty then .null else .array (responses ++ js)) v ∧
      v.out = w.out ∧ Json.utf8Elements js = true ∧
      List.Forall₂ IsReply (requests items) js := by
  induction items generalizing w responses with
  | nil => exact ⟨[], w, by rw [List.append_nil]; rfl, rfl, rfl, .nil⟩
  | cons item items ih =>
    simp only [List.map_cons, Json.utf8Elements, Bool.and_eq_true] at hu
    have hmethod := hmethods item (List.mem_cons_self ..)
    obtain ⟨j, hj, hju⟩ := commandReply_of_encodes clientID henc hu.1 w.app
    have hrun := processCommandBlocking_ok hu.1 (handled_json hmethod w) hj
    have hreply := isReplyTo_commandReply henc hmethod hj
    have ih := ih (fun item hitem => hmethods item (List.mem_cons_of_mem _ hitem)) hu.2
      (after lib recv clientID item.json w)
    simp only [List.map_cons, RequestProcessor.processValidBatchBlocking, isObject_json, if_true]
    rw [bind_of_ok hrun]
    unfold IsReplyTo at hreply
    cases hid : item.id with
    | none =>
      simp only [hid] at hreply
      subst hreply
      obtain ⟨js, v, hrest, hout, hjs, hreplies⟩ := ih responses
      refine ⟨js, v, hrest, hout.trans (after_out w), hjs, ?_⟩
      rwa [requests, List.filterMap_cons_none hid]
    | some id =>
      simp only [hid] at hreply
      obtain ⟨js, v, hrest, hout, hjs, hreplies⟩ := ih (responses ++ [j])
      rw [List.append_assoc, List.singleton_append] at hrest
      refine ⟨j :: js, v, ?_, hout.trans (after_out w), ?_, ?_⟩
      · simpa only [hreply.isNull, Bool.false_eq_true, if_false] using hrest
      · simp only [Json.utf8Elements, hju, hjs, Bool.and_self]
      · rw [requests, List.filterMap_cons_some hid]
        exact .cons hreply hreplies

end Items

section Client
variable {id : Bytes} {j : Json}

theorem IsReply.find? (h : IsReply id j) :
    j.find? (ascii "jsonrpc") = some (.string JSON_RPC_VERSION) ∧
      j.find? (ascii "id") = some (.string id) ∧ j.find? (ascii "method") = none := by
  cases h with
  | result result => exact ⟨rfl, rfl, rfl⟩
  | error => exact ⟨rfl, rfl, rfl⟩

theorem get_reparsed (j : Json) (key : Bytes) :
    Value.get (some j.reparsed) key = (j.find? key).map Json.reparsed :=
  Json.find?_reparsed key j

theorem isNumber_reparsed (code : ℤ) : (Json.numberInteger code).reparsed.isNumber = true := by
  rw [Json.reparsed]
  split_ifs <;> rfl

theorem IsReply.isJsonRpcResponse (h : IsReply id j) :
    isJsonRpcResponse (some j.reparsed) = true := by
  obtain ⟨hversion, hid, -⟩ := h.find?
  have hget (key : Bytes) := get_reparsed j key
  have hobject : Value.isObject (some j.reparsed) = true := by
    refine isObject_of_get (ascii "id") ?_
    rw [hget, hid]
    rfl
  have hanswer : ((Value.get (some j.reparsed) (ascii "result")).isSome ||
      isJsonRpcErrorObject (Value.get (some j.reparsed) (ascii "error"))) = true := by
    rw [hget, hget]
    cases h with
    | result result => rfl
    | @error e code message hcode hmessage =>
      have hget := get_reparsed e
      have herror : Value.isObject (some e.reparsed) = true := by
        refine isObject_of_get (ascii "code") ?_
        rw [hget, hcode]
        rfl
      rw [(find?_makeErrorResponseJson e (.string id)).2.2.1,
        (find?_makeErrorResponseJson e (.string id)).2.2.2]
      simp only [Option.map_none, Option.map_some, isJsonRpcErrorObject, hget, hcode, hmessage,
        herror, Value.isNumber, isNumber_reparsed]
      rfl
  simp only [Js.isJsonRpcResponse, hobject, hget, hversion, hid, Option.map_some] at hanswer ⊢
  rw [hanswer]
  rfl

theorem IsReply.not_trips (h : IsReply id j) : trips (some j.reparsed) = false := by
  rw [trips, get_reparsed j (ascii "method"), h.find?.2.2]
  simp [Value.isString]

variable {ids : List Bytes} {js : List Json}

theorem reparsedElements_eq (js : List Json) : Json.reparsedElements js = js.map Json.reparsed := by
  induction js with
  | nil => rfl
  | cons j js ih => rw [Json.reparsedElements, ih, List.map_cons]

theorem reply_of_mem (h : List.Forall₂ IsReply ids js) (hj : j ∈ js) : ∃ id, IsReply id j := by
  induction h with
  | nil => cases hj
  | cons hreply _ ih =>
    rcases List.mem_cons.mp hj with rfl | hj
    · exact ⟨_, hreply⟩
    · exact ih hj

theorem isEmpty_replies (h : List.Forall₂ IsReply ids js) (hne : ids ≠ []) : js.isEmpty = false := by
  cases h with
  | nil => exact absurd rfl hne
  | cons => rfl

theorem ids_eq (h : List.Forall₂ IsReply ids js) : (js.map Json.reparsed).map
    (Json.find? (ascii "id")) = ids.map fun id => some (.string id) := by
  induction h with
  | nil => rfl
  | cons hreply _ ih =>
    rw [List.map_cons, List.map_cons, List.map_cons, ih, Json.find?_reparsed, hreply.find?.2.1]
    rfl

theorem createBatchResponseFilter_replies (h : List.Forall₂ IsReply ids js)
    (others : List Bytes) : createBatchResponseFilter (some (.array (js.map Json.reparsed))) others =
      others.all fun id => decide (id ∈ ids) := by
  have hall : ((js.map Json.reparsed).all fun element => isJsonRpcResponse (some element)) =
      true := by
    refine List.all_eq_true.mpr fun element helement => ?_
    obtain ⟨j, hj, rfl⟩ := List.mem_map.mp helement
    obtain ⟨id, hreply⟩ := reply_of_mem h hj
    exact hreply.isJsonRpcResponse
  have hany (id : Bytes) : ((js.map Json.reparsed).any fun item =>
      (Value.get (some item) (ascii "id")).equals id) = decide (id ∈ ids) := by
    have hids (es : List Json) : (es.any fun item =>
        (Value.get (some item) (ascii "id")).equals id) =
          (es.map (Json.find? (ascii "id"))).any (Value.equals · id) := by
      rw [List.any_map]
      rfl
    rw [hids, ids_eq h, List.any_map, Bool.eq_iff_iff]
    simp [Value.equals]
  simp only [createBatchResponseFilter, hall, Bool.true_and, hany]

theorem answers_of_replies {items : List Item} (h : List.Forall₂ IsReply (requests items) js)
    (hne : requests items ≠ []) : Answers items (some (Json.array js).reparsed) := by
  have hmem (element : Json) (helement : element ∈ js.map Json.reparsed) :
      isJsonRpcResponse (some element) = true ∧ trips (some element) = false := by
    obtain ⟨j, hj, rfl⟩ := List.mem_map.mp helement
    obtain ⟨id, hreply⟩ := reply_of_mem h hj
    exact ⟨hreply.isJsonRpcResponse, hreply.not_trips⟩
  have hobject (element : Json) (helement : element ∈ js.map Json.reparsed) :
      isRpcObject (some element) = true := by
    rw [isRpcObject, (hmem element helement).1, Bool.or_true]
  have hempty : (js.map Json.reparsed).isEmpty = false := by
    rw [List.isEmpty_map]
    exact isEmpty_replies h hne
  rw [Json.reparsed, reparsedElements_eq]
  refine ⟨?_, ?_, ⟨_, rfl, ids_eq h⟩, fun others hothers hforeign => ?_⟩
  · have hharmless : isHarmless (some (.array (js.map Json.reparsed))) = true := by
      have hnone : ((js.map Json.reparsed).find? fun element =>
          trips (some element) || !isRpcObject (some element)) = none := by
        refine List.find?_eq_none.mpr fun element helement => ?_
        simp [hobject element helement, (hmem element helement).2]
      simp only [isHarmless, areHarmless, hnone, Option.all_none]
    rw [isJsonRpcMessage_eq, if_pos hharmless]
    simp only [isMessage, hempty, List.all_eq_true.mpr hobject]
    rfl
  · rw [createBatchResponseFilter_replies h]
    simp
  · rw [createBatchResponseFilter_replies h]
    obtain ⟨id, hid⟩ := List.exists_mem_of_ne_nil others hothers
    exact List.all_eq_false.mpr ⟨id, hid, by simp [hforeign id hid]⟩

end Client

section Server
variable {α : Type} {lib : JsonLib} {recv : Receiver α} {items : List Item}
  {w : World α (List Text)} {request : JsonRpc.Request}
  {hu : (Json.array (items.map Item.json)).utf8 = true}

/-- A batch with a request is answered by one array, which the client takes for the answer to
this batch. -/
theorem batch_answered (henc : recv.Encodes lib)
    (hparse : lib.parse request.message = .value (.array (items.map Item.json)) hu)
    (hmethods : ∀ item ∈ items, item.method ≠ cancelMethodName)
    (hrequests : requests items ≠ []) :
    ∃ (js : List Json) (hj : (Json.array js).utf8 = true) (v : World α (List Text)),
      (RequestProcessor.process lib recv request).run w =
        .ok none { v with out := w.out ++ [.dumped (.array js) hj] } ∧
      Answers items (some (Json.array js).reparsed) := by
  have hne : items.map Item.json ≠ [] := by
    intro hnil
    exact hrequests (by rw [List.map_eq_nil_iff.mp hnil]; rfl)
  obtain ⟨js, v, hrun, hout, hjs, hreplies⟩ := processValidBatchBlocking_items
    request.clientID henc hmethods hu w []
  rw [List.nil_append, isEmpty_replies hreplies hrequests] at hrun
  have harray : (Json.array js).utf8 = true := by rwa [Json.utf8]
  refine ⟨js, harray, v, process_of_ok ?_, answers_of_replies hreplies hrequests⟩
  have hbatch : (RequestProcessor.processBatchBlocking lib recv (items.map Item.json)
      request.clientID).run w = .ok (.dumped (.array js) harray) v := by
    rw [processBatchBlocking_of_ne hne, bind_of_ok hrun]
    simp only [Bool.false_eq_true, if_false]
    rw [show dump (Json.array js) = _ from Json.dump_ok harray]
    rfl
  rw [processDocument_of_array hparse, bind_of_ok hbatch, ← hout]
  rfl

/-- A request, a notification and a request for an unknown method. -/
def sampleItems : List Item := [
  { id := some (ascii "a"), method := ascii "ping", params := none, takenOver := nofun },
  { id := none, method := ascii "ping", params := none, takenOver := nofun },
  { id := some (ascii "b"), method := ascii "pong", params := none, takenOver := nofun }]

theorem sampleItems_utf8 : (Json.array (sampleItems.map Item.json)).utf8 = true := by
  decide +kernel

def sampleText : Bytes := ascii ("[\x7b\"id\": \"a\", \"jsonrpc\": \"2.0\", \"method\": \"ping\"\x7d, " ++
  "\x7b\"jsonrpc\": \"2.0\", \"method\": \"ping\"\x7d, " ++
  "\x7b\"id\": \"b\", \"jsonrpc\": \"2.0\", \"method\": \"pong\"\x7d]")

def sampleBatches : JsonLib :=
  .ofTable [(sampleText, .value (.array (sampleItems.map Item.json)) sampleItems_utf8)]

theorem parse_sampleText : sampleBatches.parse (.bytes sampleText) =
    .value (.array (sampleItems.map Item.json)) sampleItems_utf8 := by
  simp only [sampleBatches, JsonLib.parse, JsonLib.ofTable, List.lookup, BEq.rfl, Option.getD_some]

theorem sampleItems_answered : ∃ (js : List Json) (hj : (Json.array js).utf8 = true)
    (v : World Unit (List Text)),
      (RequestProcessor.process sampleBatches (pingReceiver okResponse)
        { message := .bytes sampleText, clientID := 1 }).run freshWorld =
        .ok none { v with out := [] ++ [.dumped (.array js) hj] } ∧
      Answers sampleItems (some (Json.array js).reparsed) :=
  batch_answered (pingReceiver_encodes okResponse_encoded) parse_sampleText
    (by decide) (by decide)

end Server
end Rockets.Js
