import Rockets.JsonRpcMalformedMessages

set_option autoImplicit false

/-!
# The reply to a request for a bound method

Which responses of an action are turned into a proper reply to the request: they are the
ones whose result or error data the reply can be built from.
-/
namespace Rockets.JsonRpc
variable {α : Type} {lib : JsonLib}

/-- The error member of a reply has the given code and message. -/
def ReportsError (reply : Json) (error : Response.Error) : Prop :=
  ∃ e, reply.find? (ascii "error") = some e ∧
    e.find? (ascii "code") = some (.numberInteger error.code) ∧
    e.find? (ascii "message") = some (.string error.message)

/-- An object that answers the request `id` with the response. What cannot be encoded is
reported as an internal error. -/
structure ProperReply (lib : JsonLib) (id : Json) (rep : Response) (reply : Json) : Prop where
  version : reply.find? (ascii "jsonrpc") = some (.string (ascii "2.0"))
  own : reply.find? (ascii "id") = some id
  one : reply.count (ascii "result") = !reply.count (ascii "error")
  success : rep.isError = false → ∀ result h, lib.parse rep.result = .value result h →
    reply.find? (ascii "result") = some result
  error : rep.isError = true → rep.Encoded lib → ReportsError reply rep.error
  unencodable : ¬ rep.Encoded lib → ReportsError reply internalError ∨
    rep.isError = true ∧ ReportsError reply rep.error

/-- The reply can be built: the text of a result has no number that overflows, the data
of an error is JSON if there is any. -/
def Response.Buildable (lib : JsonLib) (rep : Response) : Prop :=
  if rep.isError then rep.error.data.isEmpty = true ∨ ∃ data h, lib.parse rep.error.data = .value data h
  else lib.parse rep.result ≠ .outOfRange

/-- All texts the callback of `process` is given, the answer that is owed included. -/
def texts (x : Effect α (List Text) (Option (Effect α (List Text) Unit)))
    (w : World α (List Text)) : List Text :=
  match x.run w with
  | .error _ v => v.out
  | .ok later v => match (settle later).run v with
    | .ok _ u | .error _ u => u.out

section Build
variable {id : Json} {rep : Response}

theorem find?_makeErrorResponseJson (error id : Json) :
    (makeErrorResponseJson error id).find? (ascii "jsonrpc") = some (.string (ascii "2.0")) ∧
    (makeErrorResponseJson error id).find? (ascii "id") = some id ∧
    (makeErrorResponseJson error id).find? (ascii "error") = some error ∧
    (makeErrorResponseJson error id).find? (ascii "result") = none := by
  rw [makeErrorResponseJson_eq]
  exact ⟨rfl, rfl, rfl, rfl⟩

theorem find?_makeResponseJson (result id : Json) :
    (makeResponseJson result id).find? (ascii "jsonrpc") = some (.string (ascii "2.0")) ∧
    (makeResponseJson result id).find? (ascii "id") = some id ∧
    (makeResponseJson result id).find? (ascii "error") = none ∧
    (makeResponseJson result id).find? (ascii "result") = some result := by
  rw [makeResponseJson_eq]
  exact ⟨rfl, rfl, rfl, rfl⟩

theorem makeErrorResponse_reports {error : Response.Error} {j : Json}
    (h : makeErrorResponse lib error id = .ok j) : ∃ e, j = makeErrorResponseJson e id ∧
      e.find? (ascii "code") = some (.numberInteger error.code) ∧
      e.find? (ascii "message") = some (.string error.message) := by
  cases hdata : error.data.isEmpty with
  | true =>
    rw [makeErrorResponse_of_isEmpty hdata] at h
    obtain rfl := Except.ok.inj h
    exact ⟨_, rfl, rfl, rfl⟩
  | false =>
    cases hp : lib.parse error.data with
    | value data hu =>
      rw [makeErrorResponse_of_parse hdata hp] at h
      obtain rfl := Except.ok.inj h
      exact ⟨_, makeErrorResponseData_eq error id data, rfl, rfl⟩
    | parseError what =>
      simp only [makeErrorResponse, JsonLib.parseOrThrow, hdata, hp] at h
      cases h
    | outOfRange =>
      simp only [makeErrorResponse, JsonLib.parseOrThrow, hdata, hp] at h
      cases h

theorem properReply_of_error {error : Response.Error} {e : Json}
    (hcode : e.find? (ascii "code") = some (.numberInteger error.code))
    (hmessage : e.find? (ascii "message") = some (.string error.message))
    (hrep : rep.isError = true ∧ error = rep.error ∨
      rep.isError = false ∧ error = internalError ∧ ∀ r h, lib.parse rep.result ≠ .value r h) :
    ProperReply lib id rep (makeErrorResponseJson e id) := by
  obtain ⟨hversion, hid, he, hresult⟩ := find?_makeErrorResponseJson e id
  have hreports : ReportsError (makeErrorResponseJson e id) error := ⟨e, he, hcode, hmessage⟩
  refine ⟨hversion, hid, by rw [Json.count, Json.count, he, hresult]; rfl, ?_, ?_, ?_⟩
  · rintro hs r h hp
    rcases hrep with ⟨herror, -⟩ | ⟨-, -, hnone⟩
    · simp [herror] at hs
    · exact absurd hp (hnone r h)
  · rintro hs -
    rcases hrep with ⟨-, rfl⟩ | ⟨herror, -⟩
    · exact hreports
    · simp [herror] at hs
  · rintro -
    rcases hrep with ⟨herror, rfl⟩ | ⟨-, rfl, -⟩
    · exact .inr ⟨herror, hreports⟩
    · exact .inl hreports

theorem makeResponse_proper {j : Json} (h : makeResponse lib rep id = .ok j) :
    ProperReply lib id rep j := by
  unfold makeResponse at h
  split_ifs at h with herror
  · obtain ⟨e, rfl, hcode, hmessage⟩ := makeErrorResponse_reports h
    exact properReply_of_error hcode hmessage (.inl ⟨herror, rfl⟩)
  · have hsuccess : rep.isError = false := by simpa using herror
    unfold makeResponseText JsonLib.parseOrThrow at h
    cases hp : lib.parse rep.result with
    | value result hu =>
      simp only [hp] at h
      obtain rfl := Except.ok.inj h
      obtain ⟨hversion, hid, he, hresult⟩ := find?_makeResponseJson result id
      have hencoded : rep.Encoded lib := by
        rw [Response.Encoded, hsuccess]
        exact ⟨result, hu, hp⟩
      refine ⟨hversion, hid, by rw [Json.count, Json.count, he, hresult]; rfl, ?_,
        fun hs => absurd hs herror, fun hn => absurd hencoded hn⟩
      intro _ r hr heq
      obtain ⟨rfl⟩ := Parsed.value.inj (hp.symm.trans heq)
      exact hresult
    | parseError what =>
      simp only [hp] at h
      obtain rfl := Except.ok.inj h
      rw [makeErrorResponseData_eq]
      refine properReply_of_error rfl rfl (.inr ⟨hsuccess, rfl, ?_⟩)
      intro r hr heq
      cases hp.symm.trans heq
    | outOfRange =>
      simp only [hp] at h
      cases h

theorem makeResponse_of_buildable (hid : id.utf8 = true)
    (hm : rep.isError = true → utf8 rep.error.message = true) (h : rep.Buildable lib) :
    ∃ j, makeResponse lib rep id = .ok j ∧ j.utf8 = true := by
  unfold Response.Buildable at h
  unfold makeResponse
  split_ifs at h ⊢ with herror
  · exact makeErrorResponse_ok ⟨hm herror, h⟩ hid
  · unfold makeResponseText JsonLib.parseOrThrow
    cases hp : lib.parse rep.result with
    | value result hu => exact ⟨_, rfl, utf8_makeResponseJson hu hid⟩
    | parseError what =>
      exact ⟨_, rfl, (utf8_makeErrorResponseData (utf8_ascii (by decide)) hid).trans
        (utf8_ascii (by decide))⟩
    | outOfRange => exact absurd hp h

variable (id) in
theorem makeResponse_of_not_buildable (h : ¬ rep.Buildable lib) :
    ∃ e, makeResponse lib rep id = .error e := by
  unfold Response.Buildable at h
  unfold makeResponse
  split_ifs at h ⊢
  · push Not at h
    simp only [makeErrorResponse, h.1, JsonLib.parseOrThrow]
    cases hp : lib.parse rep.error.data with
    | value data hu => exact absurd hp (h.2 data hu)
    | parseError what => exact ⟨_, rfl⟩
    | outOfRange => exact ⟨_, rfl⟩
  · exact ⟨.outOfRange, by simp only [makeResponseText, JsonLib.parseOrThrow, not_not.mp h]⟩

end Build

section Texts
variable {recv : Receiver α} {request : Request} {w : World α (List Text)}

theorem process_concludes_of_document {later : Bool} {v : World α (List Text)}
    (h : Concludes (RequestProcessor.processDocument lib recv request) later w (.ok v)) :
    Concludes (RequestProcessor.process lib recv request) later w (.ok v) := by
  cases later with
  | false => exact process_of_ok h
  | true =>
    obtain ⟨completion, u, hu, hout, hc⟩ := h
    exact ⟨completion, u, process_of_ok hu, hout, hc⟩

theorem texts_of_concludes {later : Bool} {v : World α (List Text)}
    (h : Concludes (RequestProcessor.processDocument lib recv request) later w (.ok v)) :
    texts (RequestProcessor.process lib recv request) w = v.out := by
  cases later with
  | false =>
    rw [texts, process_of_ok h]
    rfl
  | true =>
    obtain ⟨completion, u, hu, -, hc⟩ := h
    simp only [texts, process_of_ok hu, settle_of_ok hc]

/-- If the reply cannot be built there is none, or one that reports the exception as if the
message had been malformed. -/
theorem texts_of_stopped {later : Bool} {e : Exn}
    (h : Concludes (RequestProcessor.processDocument lib recv request) later w (.error e)) :
    texts (RequestProcessor.process lib recv request) w = w.out ∨
      ∃ what hu, texts (RequestProcessor.process lib recv request) w = w.out ++
        [.dumped (makeErrorResponseData parseError .null (.string what)) hu] := by
  cases later with
  | true =>
    obtain ⟨completion, u, hu, hout, v, hv, hvout⟩ := h
    left
    simp only [texts, process_of_ok hu, settle_of_error hv]
    exact hvout.trans hout
  | false =>
    obtain ⟨v, hv, hout⟩ := h
    unfold texts
    by_cases he : ∃ what, e = .parseError what
    · obtain ⟨what, rfl⟩ := he
      rcases process_of_parseError hv with ⟨-, hu, hrun⟩ | ⟨-, hrun⟩
      · refine .inr ⟨what, hu, ?_⟩
        rw [hrun, ← hout]
        rfl
      · rw [hrun]
        exact .inl hout
    · rw [process_of_thrown hv (not_exists.mp he)]
      exact .inl hout

theorem dump_of_proper {id : Json} {rep : Response} {j : Json} (h : ProperReply lib id rep j)
    (hu : j.utf8 = true) : dump j = .ok (.dumped j hu) := by
  have hnull : j.isNull = false := by
    cases j with
    | null => cases h.version
    | _ => rfl
  exact (dump_of_not_null hnull).trans (Json.dump_ok hu)

section Bound
variable {object : Json} {hu : object.utf8 = true} {c : Call} {deed : Deed α}

theorem processDocument_concludes (hp : lib.parse request.message = .value object hu)
    (hobject : object.isObject = true) (hcall : asCall recv object = some c)
    (hbinds : recv.binds c.method = true)
    (hdeed : recv.deed lib c.id c.method { message := c.params, clientID := request.clientID }
      w.app = some deed) :
    Concludes (RequestProcessor.processDocument lib recv request) deed.given.isLater w
      (deed.outcome lib c.id stringifyCallback w) := by
  rw [processDocument_of_object request hobject hp, processCommand_of_asCall hcall]
  exact process_concludes stringifyCallback (Receiver.ne_cancel_of_binds hbinds) hdeed

theorem not_proper_of_not_buildable (hid : c.id.isNull = false)
    (hrun : Concludes (RequestProcessor.processDocument lib recv request) deed.given.isLater w
      (deed.outcome lib c.id stringifyCallback w))
    (hb : ¬ deed.given.response.Buildable lib) :
    ¬ ∃ j hj, texts (RequestProcessor.process lib recv request) w = w.out ++ [.dumped j hj] ∧
      ProperReply lib c.id deed.given.response j := by
  rintro ⟨j, hj, htexts, hproper⟩
  obtain ⟨e, he⟩ := makeResponse_of_not_buildable c.id hb
  rw [Deed.outcome, sendReply, replyJson, hid] at hrun
  rw [he] at hrun
  rcases texts_of_stopped hrun with hnone | ⟨what, hw, hone⟩
  · simp [hnone] at htexts
  · rw [hone, List.append_cancel_left_eq, List.cons.injEq] at htexts
    obtain ⟨rfl⟩ := Text.dumped.inj htexts.1
    have hnull := hproper.own.symm.trans (find?_makeErrorResponseJson _ .null).2.1
    simp [Option.some.inj hnull, Json.isNull] at hid

/-- A request with an id for a bound method gets exactly one reply, and a proper one, if and
only if the reply can be built from the response of the action. -/
theorem reply_proper_iff (hp : lib.parse request.message = .value object hu)
    (hobject : object.isObject = true) (hcall : asCall recv object = some c)
    (hid : c.id.isNull = false) (hbinds : recv.binds c.method = true)
    (hdeed : recv.deed lib c.id c.method { message := c.params, clientID := request.clientID }
      w.app = some deed)
    (hm : deed.given.response.isError = true → utf8 deed.given.response.error.message = true) :
    (∃ j hj, texts (RequestProcessor.process lib recv request) w = w.out ++ [.dumped j hj] ∧
      ProperReply lib c.id deed.given.response j) ↔ deed.given.response.Buildable lib := by
  have hrun := processDocument_concludes hp hobject hcall hbinds hdeed
  constructor
  · intro h
    by_contra hb
    exact not_proper_of_not_buildable hid hrun hb h
  · intro hb
    obtain ⟨j, hj, hju⟩ := makeResponse_of_buildable (asCall_id_utf8 hu hcall) hm hb
    have hproper := makeResponse_proper hj
    rw [Deed.outcome, sendReply, replyJson, hid] at hrun
    rw [hj] at hrun
    have hsent : Concludes _ deed.given.isLater w
        ((stringifyCallback j w.out).map (deed.world w)) := hrun
    rw [stringifyCallback, dump_of_proper hproper hju] at hsent
    exact ⟨j, hju, texts_of_concludes hsent, hproper⟩

end Bound

end Texts

section Samples

def pingRequest : Json := .object [(ascii "id", .numberUnsigned 1),
  (ascii "jsonrpc", .string (ascii "2.0")), (ascii "method", .string (ascii "ping"))]

theorem pingRequest_utf8 : pingRequest.utf8 = true := by
  simp (disch := decide) only [pingRequest, Json.utf8, Json.utf8Members, utf8_ascii,
    Bool.and_true]

def pingText : Bytes := ascii "\x7b\"jsonrpc\": \"2.0\", \"method\": \"ping\", \"id\": 1\x7d"

def pingCall : Call := { id := .numberUnsigned 1, method := ascii "ping", params := .bytes [] }

def sampleRequests : JsonLib := .ofTable [(pingText, .value pingRequest pingRequest_utf8)]

theorem parse_pingText : sampleRequests.parse (.bytes pingText) =
    .value pingRequest pingRequest_utf8 := rfl

theorem asCall_pingRequest (rep : Response) :
    asCall (pingReceiver rep) pingRequest = some pingCall := rfl

theorem binds_ping (rep : Response) : (pingReceiver rep).binds pingCall.method = true := rfl

theorem deed_ping (rep : Response) (request : Request) :
    (pingReceiver rep).deed sampleRequests pingCall.id pingCall.method request () =
      some { given := .now rep, app := (), requests := id } := rfl

/-- A receiver to which nothing has been sent yet. -/
def freshWorld : World Unit (List Text) := { app := (), requests := [], aborted := [], out := [] }

/-- The texts a fresh receiver replies to the request with. -/
def pingTexts (rep : Response) : List Text :=
  texts (RequestProcessor.process sampleRequests (pingReceiver rep)
    { message := .bytes pingText, clientID := 1 })
    { app := (), requests := [], aborted := [], out := [] }

/-- An error with data that is not JSON. -/
def plainDataError : Response :=
  { error := { message := ascii "failed", code := 7, data := .bytes (ascii "details") } }

/-- The client gets a parse error without its id. -/
theorem plainDataError_lost : asCall (pingReceiver plainDataError) pingRequest = some pingCall ∧
    (pingReceiver plainDataError).binds pingCall.method = true ∧
    ¬ ∃ j hj, pingTexts plainDataError = [.dumped j hj] ∧
      ProperReply sampleRequests pingCall.id plainDataError j := by
  refine ⟨asCall_pingRequest _, binds_ping _, ?_⟩
  refine not_proper_of_not_buildable rfl (processDocument_concludes parse_pingText rfl
    (asCall_pingRequest plainDataError) (binds_ping plainDataError)
    (deed_ping plainDataError _)) ?_
  rintro (h | ⟨data, hu, h⟩)
  · cases h
  · cases h

theorem okResponse_replied : ∃ j hj, pingTexts okResponse = [] ++ [.dumped j hj] ∧
    ProperReply sampleRequests pingCall.id okResponse j :=
  (reply_proper_iff parse_pingText rfl (asCall_pingRequest okResponse) rfl
    (binds_ping okResponse) (deed_ping okResponse _) (fun h => by cases h)).mpr
    (fun h => by cases h)

end Samples
end Rockets.JsonRpc
