import Rockets.JsonRpcProperReplies
import Rockets.JsonRpcRequesterCallbacks
import Rockets.JsonTexts

set_option autoImplicit false

/-!
# Round trip of a call

A request goes from a requester through a receiver to the action bound to its method, and
the response of the action goes back to the callback of the request. The two halves meet at
the values of the two texts.
-/
namespace Rockets

namespace Json

mutual

theorem reparsed_reparsed : (j : Json) → j.reparsed.reparsed = j.reparsed
  | null | boolean _ | numberUnsigned _ | numberFloat _ | string _ => by simp only [reparsed]
  | numberInteger n => by
    by_cases hn : 0 ≤ n
    · simp only [reparsed, hn, if_true]
    · simp only [reparsed, hn, if_false]
  | array elements => by simp only [reparsed, reparsedElements_reparsed elements]
  | object members => by simp only [reparsed, reparsedMembers_reparsed members]

theorem reparsedElements_reparsed : (js : List Json) →
    reparsedElements (reparsedElements js) = reparsedElements js
  | [] => rfl
  | j :: js => by
    simp only [reparsedElements, reparsed_reparsed j, reparsedElements_reparsed js]

theorem reparsedMembers_reparsed : (ms : List (Bytes × Json)) →
    reparsedMembers (reparsedMembers ms) = reparsedMembers ms
  | [] => rfl
  | (k, j) :: ms => by
    simp only [reparsedMembers, reparsed_reparsed j, reparsedMembers_reparsed ms]

end

end Json

namespace JsonRpc
variable {α : Type} {lib : JsonLib}

/-- Texts of equal values. Integers are equal whichever way they are stored. -/
def SameValue (lib : JsonLib) (a b : Text) : Prop :=
  ∃ i j hi hj, lib.parse a = .value i hi ∧ lib.parse b = .value j hj ∧ i.reparsed = j.reparsed

def SameText (lib : JsonLib) (a b : Text) : Prop :=
  if a.isEmpty then b.isEmpty = true else SameValue lib a b

/-- The response a callback is given stands for that of the action. -/
structure SameResponse (lib : JsonLib) (rep rep' : Response) : Prop where
  isError : rep'.isError = rep.isError
  result : rep.isError = false → SameValue lib rep.result rep'.result
  code : rep'.error.code = rep.error.code
  message : rep.isError = true → rep'.error.message = rep.error.message
  data : rep.isError = true → SameText lib rep.error.data rep'.error.data

def IsInt (n : ℤ) : Prop := -2 ^ 31 ≤ n ∧ n < 2 ^ 31

instance (n : ℤ) : Decidable (IsInt n) := inferInstanceAs (Decidable (_ ∧ _))

theorem sameValue_dumped {a : Text} {i : Json} {hi : i.utf8 = true}
    (h : lib.parse a = .value i hi) (hr : i.reparsed.utf8 = true) :
    SameValue lib a (.dumped i.reparsed hr) :=
  ⟨i, i.reparsed.reparsed, hi, _, h, rfl, by
    rw [Json.reparsed_reparsed, Json.reparsed_reparsed]⟩

section Requests
variable {recv : Receiver α} {method : Bytes} {id : ℕ}

theorem isRegisteredMethodName_of_binds (h : recv.binds method = true) :
    recv.isRegisteredMethodName method = true := by
  unfold Receiver.binds at h
  unfold Receiver.isRegisteredMethodName
  cases hkind : recv.kind with
  | cancellable =>
    simp only [hkind, Bool.or_eq_true] at h ⊢
    rcases h with (h | h) | h
    · exact .inl (.inl (.inl h))
    · exact .inl (.inr h)
    · exact .inr h
  | _ => simpa only [hkind] using h

theorem asCall_makeRequest (h : recv.binds method = true) :
    asCall recv (Requester.makeRequest method id none).reparsed =
      some { id := .numberUnsigned id, method, params := .bytes [] } := by
  have hvalid : isValidJsonRpcRequest (Requester.makeRequest method id none).reparsed =
      .ok true := rfl
  have hmethod : ((Requester.makeRequest method id none).reparsed.at' (ascii "method")).getString =
      .ok method := rfl
  have hparams : requestParams (Requester.makeRequest method id none).reparsed =
      .ok (.bytes []) := rfl
  have hid : requestID (Requester.makeRequest method id none).reparsed = .numberUnsigned id := rfl
  simp only [asCall, hvalid, hmethod, hparams, hid, isRegisteredMethodName_of_binds h, if_true]

theorem asCall_makeRequest_some (h : recv.binds method = true) {p : Json}
    (hp : p.isObject = true ∨ p.isArray = true) (hu : p.reparsed.utf8 = true) :
    asCall recv (Requester.makeRequest method id (some p)).reparsed =
      some { id := .numberUnsigned id, method, params := .dumped p.reparsed hu } := by
  have hvalid : isValidJsonRpcRequest (Requester.makeRequest method id (some p)).reparsed =
      .ok true := by
    cases p with
    | object members => rfl
    | array elements => rfl
    | _ => cases hp <;> contradiction
  have hmethod : ((Requester.makeRequest method id (some p)).reparsed.at'
      (ascii "method")).getString = .ok method := rfl
  have hfind : (Requester.makeRequest method id (some p)).reparsed.find? (ascii "params") =
      some p.reparsed := rfl
  have hparams : requestParams (Requester.makeRequest method id (some p)).reparsed =
      .ok (.dumped p.reparsed hu) := by
    have hnull : p.reparsed.isNull = false := by
      cases p with
      | object members => rfl
      | array elements => rfl
      | _ => cases hp <;> contradiction
    simp only [requestParams, hfind]
    exact (dump_of_not_null hnull).trans (Json.dump_ok hu)
  have hid : requestID (Requester.makeRequest method id (some p)).reparsed =
      .numberUnsigned id := rfl
  simp only [asCall, hvalid, hmethod, hparams, hid, isRegisteredMethodName_of_binds h, if_true]

variable (id) in
/-- The parameters that reach the action have the value of those given to the requester. -/
theorem asCall_of_request (h : recv.binds method = true) {params : Text} {ps : Option Json}
    (hparams : Requester.parseParams lib params = .ok ps)
    (hps : ∀ p ∈ ps, p.isObject = true ∨ p.isArray = true) :
    ∃ params', SameText lib params params' ∧
      asCall recv (Requester.makeRequest method id ps).reparsed =
        some { id := .numberUnsigned id, method, params := params' } := by
  unfold Requester.parseParams at hparams
  unfold SameText
  split_ifs at hparams ⊢ with hempty
  · obtain rfl := Except.ok.inj hparams
    exact ⟨_, rfl, asCall_makeRequest h⟩
  · unfold JsonLib.parseOrThrow at hparams
    cases hp : lib.parse params with
    | value p hu =>
      simp only [hp] at hparams
      obtain rfl := Except.ok.inj hparams
      have hr := p.utf8_reparsed.trans hu
      exact ⟨_, sameValue_dumped hp hr, asCall_makeRequest_some h (hps p rfl) hr⟩
    | parseError what =>
      simp only [hp] at hparams
      cases hparams
    | outOfRange =>
      simp only [hp] at hparams
      cases hparams

end Requests

section Responses
variable {reply : Json} {id : ℕ} {rep : Response}

structure ReadAs (reply : Json) (id : ℕ) (rep : Response) : Prop where
  valid : Requester.isValidJsonRpcResponse reply = .ok true
  own : reply.at' (ascii "id") = .numberUnsigned id
  response : Requester.makeResponse reply = .ok rep

theorem ReadAs.accept {j : Json} {hu : j.utf8 = true} (h : ReadAs j.reparsed id rep)
    {impl : Requester.Impl} {call : ℕ} (hcall : impl.pendingRequests.find? id = some call) :
    impl.accept lib (.dumped j hu) = .ok (some { id, call, response := rep }) := by
  have hparse : lib.parseOrDiscard (.dumped j hu) = some j.reparsed := rfl
  simp only [Requester.Impl.accept, hparse, h.valid, h.own, hcall, h.response, bind, Except.bind,
    pure, Except.pure, if_true]

theorem isNumberInteger_reparsed (n : ℤ) :
    (Json.numberInteger n).reparsed.isNumberInteger = true := by
  simp only [Json.reparsed]
  split_ifs <;> rfl

theorem getInt_reparsed {n : ℤ} (h : IsInt n) :
    Requester.getInt (Json.numberInteger n).reparsed = .ok n := by
  have hn : n.bmod (2 ^ 32) = n := by
    unfold IsInt at h
    exact Int.bmod_eq_of_le (by omega) (by omega)
  simp only [Json.reparsed]
  split_ifs with hnonneg
  · simp only [Requester.getInt, Int.toNat_of_nonneg hnonneg, hn]
  · simp only [Requester.getInt, hn]

theorem makeResponseJson_readAs {result : Json} (hu : result.reparsed.utf8 = true) :
    ReadAs (makeResponseJson result (.numberUnsigned id)).reparsed id
      { result := .dumped result.reparsed hu } where
  valid := rfl
  own := rfl
  response := by
    have hresult : (makeResponseJson result (.numberUnsigned id)).reparsed.at' (ascii "result") =
      result.reparsed := rfl
    have herror : (makeResponseJson result (.numberUnsigned id)).reparsed.count (ascii "error") =
      false := rfl
    simp only [Requester.makeResponse, herror, hresult, Json.dump_ok hu]
    rfl

variable (id) in
theorem makeErrorResponseJson_readAs (error : Response.Error) {members : List (Bytes × Json)}
    (hcode : (Json.object members).find? (ascii "code") = some (.numberInteger error.code))
    (hint : IsInt error.code)
    (hmessage : (Json.object members).find? (ascii "message") = some (.string error.message))
    {data : Text} (hdata : match (Json.object members).find? (ascii "data") with
      | none => data = .bytes []
      | some d => d.reparsed.dump = .ok data) :
    ReadAs (makeErrorResponseJson (.object members) (.numberUnsigned id)).reparsed id
      { error := { message := error.message, code := error.code, data } } := by
  have hfind : (makeErrorResponseJson (.object members) (.numberUnsigned id)).reparsed.find?
      (ascii "error") = some (Json.object members).reparsed := rfl
  have hcode' : (Json.object members).reparsed.find? (ascii "code") =
      some (Json.numberInteger error.code).reparsed := by
    rw [Json.find?_reparsed, hcode]
    rfl
  have hmessage' : (Json.object members).reparsed.find? (ascii "message") =
      some (.string error.message) := by
    rw [Json.find?_reparsed, hmessage]
    rfl
  have herror : Requester.isValidError (Json.object members).reparsed = true := by
    simp only [Requester.isValidError, Json.count, Json.at', hcode', hmessage',
      Option.isSome_some, Option.getD_some, isNumberInteger_reparsed, Json.isString]
    rfl
  refine ⟨?_, rfl, ?_⟩
  · have hat : (makeErrorResponseJson (.object members) (.numberUnsigned id)).reparsed.at'
      (ascii "error") = (Json.object members).reparsed := rfl
    have hversion : Requester.isValidJsonRpcResponse
        (makeErrorResponseJson (.object members) (.numberUnsigned id)).reparsed =
        .ok (Requester.isValidError (Json.object members).reparsed && true && true) := rfl
    rw [hversion, herror]
    rfl
  · simp only [Requester.makeResponse, Json.count, Json.at', hfind, hcode', hmessage',
      Option.isSome_some, Option.getD_some, Json.getString, getInt_reparsed hint, if_true,
      Json.find?_reparsed]
    cases hd : (Json.object members).find? (ascii "data") with
    | none =>
      simp only [hd] at hdata
      subst hdata
      rfl
    | some d =>
      simp only [hd] at hdata
      simp only [Option.map_some, Option.isSome_some, Option.getD_some, hdata, if_true]
      rfl

theorem makeErrorResponse_readAs (hcode : rep.isError = true) (hint : IsInt rep.error.code)
    (h : rep.error.Encodable lib) (id : ℕ) : ∃ j rep',
      makeErrorResponse lib rep.error (.numberUnsigned id) = .ok j ∧ j.utf8 = true ∧
      ReadAs j.reparsed id rep' ∧ SameResponse lib rep rep' := by
  obtain ⟨hm, hdata⟩ := h
  cases hempty : rep.error.data.isEmpty with
  | true =>
    refine ⟨_, _, makeErrorResponse_of_isEmpty hempty _,
      utf8_makeErrorResponseJson ?_ rfl, makeErrorResponseJson_readAs id rep.error
        rfl hint rfl rfl, ?_⟩
    · simp (disch := decide) only [Json.utf8, Json.utf8Members, hm, utf8_ascii, Bool.and_true]
    · have hsuccess : ¬ rep.isError = false := by simp [hcode]
      refine ⟨rfl, fun hs => absurd hs hsuccess, rfl, fun _ => rfl, fun _ => ?_⟩
      rw [SameText, if_pos hempty]
      rfl
  | false =>
    obtain ⟨d, hd, hp⟩ := hdata.resolve_left (by simp [hempty])
    have hr := d.utf8_reparsed.trans hd
    refine ⟨_, _, makeErrorResponse_of_parse hempty hp _, (utf8_makeErrorResponseData hm rfl).trans hd,
      makeErrorResponseJson_readAs id rep.error rfl hint rfl (Json.dump_ok hr), ?_⟩
    have hsuccess : ¬ rep.isError = false := by simp [hcode]
    refine ⟨rfl, fun hs => absurd hs hsuccess, rfl, fun _ => rfl, fun _ => ?_⟩
    rw [SameText, if_neg (by simp [hempty])]
    exact sameValue_dumped hp hr

/-- The reply to a response that is encoded is read as the same response. -/
theorem makeResponse_readAs (h : rep.Encoded lib) (hint : IsInt rep.error.code) (id : ℕ) :
    ∃ j rep', makeResponse lib rep (.numberUnsigned id) = .ok j ∧ j.utf8 = true ∧
      ReadAs j.reparsed id rep' ∧ SameResponse lib rep rep' := by
  unfold Response.Encoded at h
  unfold makeResponse
  split_ifs at h ⊢ with herror
  · exact makeErrorResponse_readAs herror hint h id
  · obtain ⟨result, hu, hp⟩ := h
    have hsuccess : rep.isError = false := by simpa using herror
    have hcode : rep.error.code = 0 := by simpa [Response.isError] using hsuccess
    refine ⟨makeResponseJson result (.numberUnsigned id), _, ?_, utf8_makeResponseJson hu rfl,
      makeResponseJson_readAs (result.utf8_reparsed.trans hu), hsuccess.symm,
      fun _ => sameValue_dumped hp _, hcode.symm, fun hs => absurd hs herror,
      fun hs => absurd hs herror⟩
    simp only [makeResponseText, JsonLib.parseOrThrow, hp]

end Responses

section RoundTrip
variable {recv : Receiver α} {w : World α (List Text)} {s : Requester.State} {method : Bytes}
  {params : Text} {ps : Option Json}

theorem request_sends (hmethod : utf8 method = true)
    (hparams : Requester.parseParams lib params = .ok ps) :
    s.request lib method params =
      ((s.begin method params).emplace s.calls.length).send s.calls.length s.impl.lastId
        (Requester.makeRequest method s.impl.lastId ps) := by
  rcases s.request_cases lib method params with
    ⟨what, herror, -⟩ | ⟨e, herror, -, -⟩ | ⟨ps', hps', hsent⟩
  · rw [hparams] at herror
    cases herror
  · rw [hparams] at herror
    cases herror
  · obtain rfl := Except.ok.inj (hparams.symm.trans hps')
    have hu := (Requester.utf8_makeRequest hparams s.impl.lastId).trans hmethod
    rcases hsent with ⟨hfalse, -⟩ | ⟨-, heq⟩
    · rw [hu] at hfalse
      cases hfalse
    · exact heq

/-- What the action responds is what the receiver replies. -/
theorem process_of_deed {id clientID : ℕ} {params' : Text} {deed : Deed α}
    (hbinds : recv.binds method = true) (hu : (Requester.makeRequest method id ps).utf8 = true)
    (hcall : asCall recv (Requester.makeRequest method id ps).reparsed =
      some { id := .numberUnsigned id, method, params := params' })
    (hdeed : recv.deed lib (.numberUnsigned id) method { message := params', clientID } w.app =
      some deed) {j : Json} (hju : j.utf8 = true)
    (hj : makeResponse lib deed.given.response (.numberUnsigned id) = .ok j) :
    Concludes (RequestProcessor.process lib recv { message := .dumped _ hu, clientID })
      deed.given.isLater w (.ok (deed.world w (w.out ++ [.dumped j hju]))) := by
  have hobject : (Requester.makeRequest method id ps).reparsed.isObject = true := by
    cases ps <;> rfl
  have hrun : Concludes (RequestProcessor.processDocument lib recv
      { message := .dumped _ hu, clientID }) deed.given.isLater w
      (deed.outcome lib (.numberUnsigned id) stringifyCallback w) :=
    processDocument_concludes rfl hobject hcall hbinds hdeed
  refine process_concludes_of_document ?_
  have hdump : dump j = .ok (.dumped j hju) := dump_of_proper (makeResponse_proper hj) hju
  have hsend : sendReply lib (.numberUnsigned id) stringifyCallback deed.given.response w.out =
      .ok (w.out ++ [.dumped j hju]) := by
    have hreply : replyJson lib (.numberUnsigned id) deed.given.response = .ok j := hj
    rw [sendReply, hreply]
    simp only [bind, Except.bind, stringifyCallback, hdump]
    rfl
  rw [Deed.outcome, hsend] at hrun
  exact hrun

variable (s w) in
/-- The request on the wire is one for the bound action, with parameters of the same value;
whatever the action responds, the receiver replies once, and the requester accepts the
reply for as long as the request is pending and gives its callback the same response. -/
theorem round_trip (hmethod : utf8 method = true) (hbinds : recv.binds method = true)
    (hparams : Requester.parseParams lib params = .ok ps)
    (hps : ∀ p ∈ ps, p.isObject = true ∨ p.isArray = true) (clientID : ℕ) :
    ∃ request hu params' deed,
      (s.request lib method params).wire = s.wire ++ [(s.calls.length, request)] ∧
      (s.pending s.impl.lastId = none →
        (s.request lib method params).pending s.impl.lastId = some s.calls.length) ∧
      SameText lib params params' ∧
      asCall recv request.reparsed =
        some { id := .numberUnsigned s.impl.lastId, method, params := params' } ∧
      recv.deed lib (.numberUnsigned s.impl.lastId) method { message := params', clientID }
        w.app = some deed ∧
      (deed.given.response.Encoded lib → IsInt deed.given.response.error.code → ∃ reply,
        Concludes (RequestProcessor.process lib recv { message := .dumped request hu, clientID })
          deed.given.isLater w (.ok (deed.world w (w.out ++ [reply]))) ∧
        ∀ (u : Requester.State) call, u.pending s.impl.lastId = some call → ∃ rep',
          u.processResponse lib reply =
            u.respond reply { id := s.impl.lastId, call, response := rep' } ∧
          SameResponse lib deed.given.response rep') := by
  have hu := (Requester.utf8_makeRequest hparams s.impl.lastId).trans hmethod
  have hsends := request_sends (s := s) hmethod hparams
  obtain ⟨params', hsame, hcall⟩ :=
    asCall_of_request s.impl.lastId hbinds hparams hps
  obtain ⟨deed, hdeed⟩ := Option.isSome_iff_exists.mp (deed_isSome lib
    (Receiver.ne_cancel_of_binds hbinds) (isRegisteredMethodName_of_binds hbinds)
    (.numberUnsigned s.impl.lastId) { message := params', clientID } w.app)
  refine ⟨_, hu, params', deed, by rw [hsends]; rfl, ?_, hsame, hcall, hdeed, ?_⟩
  · intro hfree
    rw [hsends]
    exact (Requester.Impl.find?_emplace hfree _ _).trans (if_pos rfl)
  · intro hencoded hint
    obtain ⟨j, rep', hj, hju, hread, hresponse⟩ :=
      makeResponse_readAs hencoded hint s.impl.lastId
    refine ⟨.dumped j hju, process_of_deed hbinds hu hcall hdeed hju hj, ?_⟩
    intro u call hpending
    refine ⟨rep', ?_, hresponse⟩
    unfold Requester.State.processResponse
    rw [hread.accept hpending]

end RoundTrip

section Samples

/-- The embedded library, with some function for `strtod`. -/
def embeddedWith (strtod : Strtod) : JsonLib :=
  .embedded strtod (JsonLib.ofTable []).sameKey (JsonLib.ofTable []).sameKey_refl

/-- There are no floats to be read. -/
abbrev wireLibrary : JsonLib := embeddedWith fun _ => 0

theorem parseParams_three : Requester.parseParams wireLibrary (.bytes (ascii "[3]")) =
    .ok (some (.array [.numberUnsigned 3])) := by
  have hthree : Grammar.Scalar (fun _ => 0) [0x33] (.numberUnsigned 3) :=
    Serializer.scalar_signed (x := 3) (by decide) (by decide)
  have hvalue : Grammar.Value (fun _ => 0) (ascii "[3]") (.array [.numberUnsigned 3]) :=
    .array (t := [0x33]) (.one Grammar.isBlank_nil (.scalar hthree) Grammar.isBlank_nil)
  have hparse : wireLibrary.parse (.bytes (ascii "[3]")) = .value (.array [.numberUnsigned 3]) rfl :=
    parsed_ok (parse_value hvalue) rfl
  have hempty : (Text.bytes (ascii "[3]")).isEmpty = false := rfl
  simp only [Requester.parseParams, hempty, JsonLib.parseOrThrow, hparse]
  rfl

theorem round_trip_ping : ∃ request hu reply,
    (Requester.State.request wireLibrary {} (ascii "ping") (.bytes (ascii "[3]"))).wire =
      [(0, request)] ∧
    (RequestProcessor.process wireLibrary (pingReceiver okResponse)
      { message := .dumped request hu, clientID := 1 }).run freshWorld =
        .ok none { freshWorld with out := [reply] } ∧
    ∀ u : Requester.State, u.pending 0 = some 0 → ∃ rep',
      u.processResponse wireLibrary reply =
        u.respond reply { id := 0, call := 0, response := rep' } ∧
      SameResponse wireLibrary okResponse rep' := by
  obtain ⟨request, hu, params', deed, hwire, -, -, -, hdeed, hreply⟩ :=
    round_trip freshWorld {} (utf8_ascii (by decide)) (binds_ping okResponse)
      parseParams_three (fun p hp => .inr (by cases hp; rfl)) 1
  obtain rfl : { given := .now okResponse, app := (), requests := id } = deed :=
    Option.some.inj hdeed
  obtain ⟨reply, hrun, hres⟩ := hreply okResponse_encoded (by decide)
  exact ⟨request, hu, reply, hwire, hrun, fun u hpending => hres u 0 hpending⟩

end Samples

end JsonRpc
end Rockets
