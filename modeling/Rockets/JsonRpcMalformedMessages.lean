import Rockets.JsonRpcReplies

set_option autoImplicit false

/-!
# Messages that are not well formed

Which messages `process` answers: a text that is not a request still gets its callback
invoked, unless one of the exceptions below goes through.
-/
namespace Rockets.JsonRpc
variable {α τ : Type} (lib : JsonLib)

section Commands
variable (recv : Receiver α)

/-- A valid request for a registered method. -/
structure Call where
  id : Json
  method : Bytes
  params : Text

def asCall (request : Json) : Option Call :=
  match isValidJsonRpcRequest request, (request.at' (ascii "method")).getString,
      requestParams request with
  | .ok true, .ok method, .ok params =>
    if recv.isRegisteredMethodName method then some { id := requestID request, method, params }
    else none
  | _, _, _ => none

/-- The version is read as a string before anything else is checked. -/
def hasReadableVersion (object : Json) : Bool :=
  (object.find? (ascii "jsonrpc")).all Json.isString

/-- The error of a request that is not for a registered method. -/
def refusalError (request : Json) : Response.Error :=
  match isValidJsonRpcRequest request with
  | .ok true => methodNotFound
  | _ => invalidRequest

/-- What a request that is turned down is answered with. -/
def refusal (error : Response.Error) (id : Json) : Except Exn Json :=
  if id.isNull then .ok .null else makeErrorResponse lib error id

variable {recv}

theorem isValidJsonRpcRequest_ok {object : Json} (h : hasReadableVersion object = true) :
    ∃ b, isValidJsonRpcRequest object = .ok b := by
  unfold hasReadableVersion at h
  unfold isValidJsonRpcRequest Json.count Json.at'
  cases hv : object.find? (ascii "jsonrpc") with
  | none => exact ⟨false, rfl⟩
  | some v =>
    rw [hv] at h
    cases v with
    | string s => exact ⟨_, rfl⟩
    | _ => cases h

theorem isValidJsonRpcRequest_error {object : Json} (h : hasReadableVersion object = false) :
    isValidJsonRpcRequest object = .error .typeError := by
  unfold hasReadableVersion at h
  unfold isValidJsonRpcRequest Json.count Json.at'
  cases hv : object.find? (ascii "jsonrpc") with
  | none =>
    rw [hv] at h
    cases h
  | some v =>
    rw [hv] at h
    cases v with
    | string s => cases h
    | _ => rfl

theorem getString_of_isValid {object : Json} (h : isValidJsonRpcRequest object = .ok true) :
    ∃ method, (object.at' (ascii "method")).getString = .ok method := by
  unfold isValidJsonRpcRequest at h
  split_ifs at h with hc
  · cases h
  · cases hv : (object.at' (ascii "jsonrpc")).getString with
    | error e =>
      rw [hv] at h
      cases h
    | ok version =>
      rw [hv] at h
      have hb := Except.ok.inj h
      simp only [Bool.and_eq_true] at hb
      obtain ⟨⟨⟨-, hm⟩, -⟩, -⟩ := hb
      cases hj : object.at' (ascii "method") with
      | string s => exact ⟨s, rfl⟩
      | _ =>
        rw [hj] at hm
        cases hm

theorem dump_of_not_null {j : Json} (h : j.isNull = false) : dump j = j.dump := by
  simp only [dump, h, Bool.false_eq_true, if_false]

theorem requestParams_ok {object : Json} (h : object.utf8 = true) :
    ∃ params, requestParams object = .ok params := by
  unfold requestParams
  cases hp : object.find? (ascii "params") with
  | none => exact ⟨_, rfl⟩
  | some params =>
    simp only [dump]
    split_ifs
    · exact ⟨_, rfl⟩
    · exact ⟨_, Json.dump_ok (Json.utf8_of_find? h hp)⟩

theorem utf8_requestID {object : Json} (h : object.utf8 = true) :
    (requestID object).utf8 = true := by
  unfold requestID
  split_ifs
  · exact Json.utf8_at' _ h
  · rfl

section Run
variable {lib} {request : Json} {clientID : ℕ} {respond : JsonResponseCallback τ}

theorem refuse_ends (error : Response.Error) (id : Json) (w : World α τ) :
    Ends (RequestProcessor.refuse lib error id respond) none w
      ((refusal lib error id >>= fun j => respond j w.out).map fun out => { w with out }) := by
  unfold RequestProcessor.refuse refusal
  split_ifs
  · exact (ends_send respond .null w).andReturn none
  · cases makeErrorResponse lib error id with
    | ok j => exact (ends_send respond j w).andReturn none
    | error e => exact ⟨w, rfl, rfl⟩

theorem refusal_ok {error : Response.Error} {id : Json} (hid : id.utf8 = true)
    (he : error.Encodable lib) : ∃ j, refusal lib error id = .ok j ∧ j.utf8 = true := by
  unfold refusal
  split_ifs
  · exact ⟨.null, rfl, rfl⟩
  · exact makeErrorResponse_ok he hid

theorem processCommand_throws (h : hasReadableVersion request = false) (w : World α τ) :
    (RequestProcessor.processCommand lib recv request clientID respond).run w =
      .error (.threw .typeError) w := by
  unfold RequestProcessor.processCommand
  rw [isValidJsonRpcRequest_error h]
  rfl

theorem processCommand_of_asCall {c : Call} (h : asCall recv request = some c) :
    RequestProcessor.processCommand lib recv request clientID respond =
      recv.process lib c.id c.method { message := c.params, clientID } respond := by
  unfold asCall at h
  split at h
  next method params hv hm hp =>
    split_ifs at h with hreg
    obtain rfl := Option.some.inj h
    unfold RequestProcessor.processCommand
    rw [hv, hm, hp]
    simp only [ofExcept, hreg, pure_bind, Bool.not_true, Bool.false_eq_true, if_false]
  next => cases h

variable (respond) in
theorem processCommand_refused (hu : request.utf8 = true)
    (hv : hasReadableVersion request = true) (h : asCall recv request = none) (w : World α τ) :
    Ends (RequestProcessor.processCommand lib recv request clientID respond) none w
      ((refusal lib (refusalError request) (requestID request) >>= fun j =>
        respond j w.out).map fun out => { w with out }) := by
  obtain ⟨b, hb⟩ := isValidJsonRpcRequest_ok hv
  unfold RequestProcessor.processCommand refusalError
  rw [hb]
  cases b with
  | false => exact refuse_ends _ _ w
  | true =>
    obtain ⟨method, hm⟩ := getString_of_isValid hb
    obtain ⟨params, hp⟩ := requestParams_ok hu
    simp only [asCall, hb, hm, hp, ite_eq_right_iff, reduceCtorEq, imp_false] at h
    rw [hm]
    simp only [ofExcept, h, pure_bind]
    exact refuse_ends _ _ w

end Run
end Commands

section Cancel

/-- The id of the request that a cancel notification names. -/
def cancelTarget (c : Call) : Option Json :=
  if c.id.isNull then (lib.parseOrDiscard c.params).bind (·.find? (ascii "id")) else none

/-- The entry a cancel notification finds in the table. -/
def targetEntry (c : Call) (w : World α τ) : Option (Json × Entry α) :=
  (cancelTarget lib c).bind fun id => (w.requests.find? lib id).map (id, ·)

/-- The entry's cancel function reports back at once, but there is nobody to respond to. -/
def hitsEmptyResponder (c : Call) (w : World α τ) : Bool :=
  (targetEntry lib c w).any fun (_, entry) => (entry.first w.app).1 && entry.second = .empty

def abortedReply (requestID : Json) : Json :=
  makeErrorResponseJson (.object [(ascii "code", .numberInteger requestAborted.code),
    (ascii "message", .string requestAborted.message)]) requestID

/-- The receiver after a cancel notification. -/
def afterCancel (c : Call) (w : World α τ) : World α τ :=
  match targetEntry lib c w with
  | none => w
  | some (id, entry) =>
    { w with
      app := (entry.first w.app).2
      requests := w.requests.erase lib id
      aborted := if (entry.first w.app).1 then w.aborted ++ [abortedReply id] else w.aborted }

variable {lib}

theorem processCancel_eq (c : Call) (clientID : ℕ) :
    (Receiver.processCancel lib c.id { message := c.params, clientID } : Effect α τ Unit) =
      match cancelTarget lib c with
      | none => pure ()
      | some id => Receiver.cancelPending lib id := by
  unfold Receiver.processCancel cancelTarget Json.count Json.at'
  cases lib.parseOrDiscard c.params with
  | none => simp
  | some params =>
    cases c.id.isNull with
    | false => rfl
    | true => cases hf : params.find? (ascii "id") <;> simp [hf]

theorem cancelPending_ends {id : Json} {entry : Entry α} {w : World α τ}
    (h : w.requests.find? lib id = some entry) : Ends (Receiver.cancelPending lib id) () w
      (if (entry.first w.app).1 && entry.second = .empty then .error .badFunctionCall
        else .ok { w with
          app := (entry.first w.app).2
          requests := w.requests.erase lib id
          aborted := if (entry.first w.app).1 then w.aborted ++ [abortedReply id]
            else w.aborted }) := by
  unfold Receiver.cancelPending
  refine Ends.bind_ok (EStateM.run_get w) rfl ?_
  rw [h]
  refine Ends.bind_ok (run_call entry.first w) rfl ?_
  cases hdone : (entry.first w.app).1 with
  | false => rfl
  | true =>
    rw [makeErrorResponse_of_isEmpty rfl]
    cases entry.second with
    | empty => exact ⟨_, rfl, rfl⟩
    | bound => rfl

variable (lib) in
theorem processCancel_ends (c : Call) (clientID : ℕ) (w : World α τ) :
    Ends (Receiver.processCancel lib c.id { message := c.params, clientID }) () w
      (if hitsEmptyResponder lib c w then .error .badFunctionCall
        else .ok (afterCancel lib c w)) := by
  rw [processCancel_eq]
  unfold hitsEmptyResponder afterCancel targetEntry
  cases cancelTarget lib c with
  | none => rfl
  | some id =>
    cases hf : w.requests.find? lib id with
    | none => simp [hf, Ends, Receiver.cancelPending]
    | some entry => simpa [hf] using cancelPending_ends hf

end Cancel

section Objects
variable (recv : Receiver α)

/-- Every action answers every request with an encoded response. -/
structure Receiver.Encodes : Prop where
  sync : ∀ method action, recv.methods.find? method = some action →
    ∀ request app, (action request app).1.Encoded lib
  async : ∀ method func, recv.asyncMethods.find? method = some func →
    ∀ request app, (func request app).1.response.Encoded lib
  cancellable : ∀ method func, recv.cancellableMethods.find? method = some func →
    ∀ request app, (func request app).1.1.response.Encoded lib

def isCancelCall (c : Call) : Bool := recv.kind = .cancellable && c.method = cancelMethodName

def cancelsEmptyResponder (request : Json) (w : World α τ) : Bool :=
  (asCall recv request).any fun c => isCancelCall recv c && hitsEmptyResponder lib c w

/-- The conditions on an object that is to be handled without an exception. -/
def Handled (request : Json) (w : World α τ) : Prop :=
  hasReadableVersion request = true ∧ cancelsEmptyResponder lib recv request w = false

/-- What an object is answered with; null stands for no reply. -/
def commandReply (clientID : ℕ) (request : Json) (app : α) : Except Exn Json :=
  match asCall recv request with
  | none => refusal lib (refusalError request) (requestID request)
  | some c =>
    if isCancelCall recv c then .ok .null
    else match recv.deed lib c.id c.method { message := c.params, clientID } app with
      | none => .ok .null
      | some deed => replyJson lib c.id deed.given.response

/-- The receiver once the request is handled and answered. -/
def after (clientID : ℕ) (request : Json) (w : World α τ) : World α τ :=
  match asCall recv request with
  | none => w
  | some c =>
    if isCancelCall recv c then afterCancel lib c w
    else match recv.deed lib c.id c.method { message := c.params, clientID } w.app with
      | none => w
      | some deed => deed.world w w.out

variable {lib recv} {request : Json} {clientID : ℕ} {respond : JsonResponseCallback τ}
  {w : World α τ}

theorem Receiver.Encodes.deed (h : recv.Encodes lib) {id : Json} {method : Bytes}
    {request : Request} {app : α} {deed : Deed α}
    (hdeed : recv.deed lib id method request app = some deed) :
    deed.given.response.Encoded lib := by
  cases dispatches_of_deed hdeed with
  | sync action bound => exact h.sync method action bound request app
  | async func bound => exact h.async method func bound request app
  | cancellable func bound => exact h.cancellable method func bound request app

theorem replyJson_of_encoded {rep : Response} (h : rep.Encoded lib) {id : Json}
    (hid : id.utf8 = true) : ∃ j, replyJson lib id rep = .ok j ∧ j.utf8 = true := by
  unfold replyJson
  split_ifs
  · exact ⟨.null, rfl, rfl⟩
  · exact makeResponse_ok h hid

theorem asCall_id_utf8 (hu : request.utf8 = true) {c : Call} (h : asCall recv request = some c) :
    c.id.utf8 = true := by
  unfold asCall at h
  split at h
  · split_ifs at h
    obtain rfl := Option.some.inj h
    exact utf8_requestID hu
  · cases h

theorem asCall_registered {c : Call} (h : asCall recv request = some c) :
    recv.isRegisteredMethodName c.method = true := by
  unfold asCall at h
  split at h
  · split_ifs at h with hreg
    obtain rfl := Option.some.inj h
    exact hreg
  · cases h

theorem after_of_none (h : asCall recv request = none) :
    after lib recv clientID request w = w := by
  simp only [after, h]

theorem after_of_cancel {c : Call} (h : asCall recv request = some c)
    (hcancel : isCancelCall recv c = true) :
    after lib recv clientID request w = afterCancel lib c w := by
  simp only [after, h, hcancel, if_true]

theorem after_of_deed {c : Call} (h : asCall recv request = some c)
    (hcancel : isCancelCall recv c = false) {deed : Deed α}
    (hdeed : recv.deed lib c.id c.method { message := c.params, clientID } w.app = some deed) :
    after lib recv clientID request w = deed.world w w.out := by
  simp only [after, h, hcancel, Bool.false_eq_true, if_false, hdeed]

theorem process_cancel {c : Call} (h : isCancelCall recv c = true) (request : Request) :
    recv.process lib c.id c.method request respond = (do
      Receiver.processCancel lib c.id request
      send respond .null
      return none) := by
  simp only [isCancelCall, Bool.and_eq_true, decide_eq_true_eq] at h
  simp only [Receiver.process, h.1, Receiver.processCancellable, h.2, if_true]

variable (lib) in
theorem afterCancel_out (c : Call) (w : World α τ) : (afterCancel lib c w).out = w.out := by
  unfold afterCancel
  split <;> rfl

theorem commandReply_of_deed {c : Call} (h : asCall recv request = some c)
    (hcancel : isCancelCall recv c = false) {app : α} {deed : Deed α}
    (hdeed : recv.deed lib c.id c.method { message := c.params, clientID } app = some deed) :
    commandReply lib recv clientID request app = replyJson lib c.id deed.given.response := by
  simp only [commandReply, h, hcancel, Bool.false_eq_true, if_false, hdeed]

theorem commandReply_of_cancel {c : Call} (h : asCall recv request = some c)
    (hcancel : isCancelCall recv c = true) (app : α) :
    commandReply lib recv clientID request app = .ok .null := by
  simp only [commandReply, h, hcancel, if_true]

variable (lib clientID) in
theorem commandReply_of_none (h : asCall recv request = none) (hu : request.utf8 = true) (app : α) :
    ∃ j, commandReply lib recv clientID request app = .ok j ∧ j.utf8 = true := by
  simp only [commandReply, h]
  refine refusal_ok (utf8_requestID hu) ?_
  unfold refusalError
  split <;> exact ⟨utf8_ascii (by decide), .inl rfl⟩

theorem ne_cancel_of_not_isCancelCall {c : Call} (h : isCancelCall recv c = false)
    (hkind : recv.kind = .cancellable) : c.method ≠ cancelMethodName := by
  intro hmethod
  simp [isCancelCall, hkind, hmethod] at h

variable (lib clientID) in
theorem deed_of_call {c : Call} (h : asCall recv request = some c)
    (hcancel : isCancelCall recv c = false) (app : α) :
    ∃ deed, recv.deed lib c.id c.method { message := c.params, clientID } app = some deed :=
  Option.isSome_iff_exists.mp (deed_isSome lib (ne_cancel_of_not_isCancelCall hcancel)
    (asCall_registered h) c.id { message := c.params, clientID } app)

variable (clientID respond) in
/-- An object under the conditions is answered with the value of its reply, if there is one. -/
theorem processCommand_concludes (hu : request.utf8 = true) (h : Handled lib recv request w) :
    ∃ later, Concludes (RequestProcessor.processCommand lib recv request clientID respond)
      later w ((commandReply lib recv clientID request w.app >>= fun j =>
        respond j w.out).map fun out => { after lib recv clientID request w with out }) := by
  obtain ⟨hv, hc⟩ := h
  cases hcall : asCall recv request with
  | none =>
    rw [after_of_none hcall]
    simp only [commandReply, hcall]
    exact ⟨false, processCommand_refused respond hu hv hcall w⟩
  | some c =>
    rw [processCommand_of_asCall hcall]
    simp only [cancelsEmptyResponder, hcall, Option.any_some] at hc
    cases hcancel : isCancelCall recv c with
    | true =>
      have hrun := processCancel_ends lib c clientID w
      simp only [hcancel, Bool.true_and] at hc
      rw [hc] at hrun
      rw [process_cancel hcancel, after_of_cancel hcall hcancel]
      rw [commandReply_of_cancel hcall hcancel]
      have hout := afterCancel_out lib c w
      have hsend := (ends_send respond .null (afterCancel lib c w)).andReturn
        (none : Option (Effect α τ Unit))
      rw [hout] at hsend
      exact ⟨false, Ends.bind_ok hrun hout hsend⟩
    | false =>
      obtain ⟨deed, hdeed⟩ := deed_of_call lib clientID hcall hcancel w.app
      rw [after_of_deed hcall hcancel hdeed, commandReply_of_deed hcall hcancel hdeed]
      have hrun := process_concludes respond (ne_cancel_of_not_isCancelCall hcancel) hdeed
      simp only [Deed.outcome, sendReply] at hrun
      exact ⟨deed.given.isLater, hrun⟩

variable (clientID) in
theorem commandReply_of_encodes (henc : recv.Encodes lib) (hu : request.utf8 = true) (app : α) :
    ∃ j, commandReply lib recv clientID request app = .ok j ∧ j.utf8 = true := by
  cases hcall : asCall recv request with
  | none => exact commandReply_of_none lib clientID hcall hu app
  | some c =>
    cases hcancel : isCancelCall recv c with
    | true => exact ⟨.null, commandReply_of_cancel hcall hcancel app, rfl⟩
    | false =>
      obtain ⟨deed, hdeed⟩ := deed_of_call lib clientID hcall hcancel app
      rw [commandReply_of_deed hcall hcancel hdeed]
      exact replyJson_of_encoded (henc.deed hdeed) (asCall_id_utf8 hu hcall)

variable (clientID respond) in
/-- An object under the conditions is answered once, with a value that can be dumped. -/
theorem processCommand_handled (henc : recv.Encodes lib) (hu : request.utf8 = true)
    (h : Handled lib recv request w) : ∃ j later, j.utf8 = true ∧
      Concludes (RequestProcessor.processCommand lib recv request clientID respond) later w
        ((respond j w.out).map fun out => { after lib recv clientID request w with out }) := by
  obtain ⟨j, hj, hju⟩ := commandReply_of_encodes clientID henc hu w.app
  obtain ⟨later, hrun⟩ := processCommand_concludes clientID respond hu h
  rw [hj] at hrun
  exact ⟨j, later, hju, hrun⟩

variable (clientID respond) in
theorem processCommand_stops (h : ¬ Handled lib recv request w) : ∃ e v,
    (RequestProcessor.processCommand lib recv request clientID respond).run w =
      .error (.threw e) v ∧ ∀ what, e ≠ .parseError what := by
  cases hv : hasReadableVersion request with
  | false => exact ⟨_, _, processCommand_throws hv w, fun _ => Exn.noConfusion⟩
  | true =>
    have hc : cancelsEmptyResponder lib recv request w = true := by
      simpa [Handled, hv] using h
    cases hcall : asCall recv request with
    | none => simp [cancelsEmptyResponder, hcall] at hc
    | some c =>
      simp only [cancelsEmptyResponder, hcall, Option.any_some, Bool.and_eq_true] at hc
      have hrun := processCancel_ends lib c clientID w
      rw [hc.2] at hrun
      obtain ⟨v, hv, -⟩ := hrun
      rw [processCommand_of_asCall hcall, process_cancel hc.1]
      exact ⟨_, v, bind_of_error hv, fun _ => Exn.noConfusion⟩

end Objects

section Batches
variable {lib} {recv : Receiver α} {request : Json} {clientID : ℕ}

theorem settle_of_ok {completion : Effect α τ Unit} {v w : World α τ}
    (h : completion.run v = .ok () w) : (settle (some completion)).run v = .ok () w := by
  have h' : completion v = .ok () w := h
  simp only [settle, tryCatch, tryCatchThe, MonadExceptOf.tryCatch, EStateM.tryCatch,
    EStateM.run, h']

theorem settle_of_error {completion : Effect α τ Unit} {v w : World α τ} {e : Stop}
    (h : completion.run v = .error e w) : (settle (some completion)).run v = .ok () w := by
  have h' : completion v = .error e w := h
  simp only [settle, tryCatch, tryCatchThe, MonadExceptOf.tryCatch, EStateM.tryCatch,
    EStateM.run, h']
  rfl

theorem await_of_settle {later : Option (Effect α (Option Json) Unit)}
    {v w : World α (Option Json)} {j : Json} (h : (settle later).run v = .ok () w)
    (hout : w.out = some j) : (await later).run v = .ok j w := by
  rw [await, bind_of_ok h, EStateM.run_bind, EStateM.run_get]
  simp only [hout]
  rfl

theorem await_of_concludes {x : Effect α (Option Json) (Option (Effect α (Option Json) Unit))}
    {later : Bool} {v w : World α (Option Json)} {j : Json} (h : Concludes x later w (.ok v))
    (hout : v.out = some j) : (do await (← x)).run w = .ok j v := by
  cases later with
  | false => exact (bind_of_ok h).trans (await_of_settle rfl hout)
  | true =>
    obtain ⟨completion, u, hu, -, hc⟩ := h
    exact (bind_of_ok hu).trans (await_of_settle (settle_of_ok hc) hout)

theorem withPromise_of_ok {β : Type} {x : Effect α (Option Json) β} {w : World α τ} {b : β}
    {v : World α (Option Json)} (h : x.run { w with out := none } = .ok b v) :
    (withPromise x).run w = .ok b { v with out := w.out } := by
  have h' : x { w with out := none } = .ok b v := h
  simp only [withPromise, EStateM.run, h']

theorem withPromise_of_error {β : Type} {x : Effect α (Option Json) β} {w : World α τ} {e : Stop}
    {v : World α (Option Json)} (h : x.run { w with out := none } = .error e v) :
    (withPromise x).run w = .error e { v with out := w.out } := by
  have h' : x { w with out := none } = .error e v := h
  simp only [withPromise, EStateM.run, h']

theorem after_out (w : World α τ) : (after lib recv clientID request w).out = w.out := by
  unfold after
  cases asCall recv request with
  | none => rfl
  | some c =>
    simp only
    split_ifs
    · exact afterCancel_out lib c w
    · split <;> rfl

theorem after_withOut {φ : Type} (w : World α τ) (out : φ) :
    ({ after lib recv clientID request { w with out } with out := w.out } : World α τ) =
      after lib recv clientID request w := by
  unfold after afterCancel targetEntry
  cases asCall recv request with
  | none => rfl
  | some c =>
    simp only
    split_ifs
    · split <;> rfl
    · split <;> rfl

theorem processCommandBlocking_ok (hu : request.utf8 = true) {w : World α τ}
    (h : Handled lib recv request w) {j : Json}
    (hj : commandReply lib recv clientID request w.app = .ok j) :
    (RequestProcessor.processCommandBlocking lib recv request clientID).run w =
      .ok j (after lib recv clientID request w) := by
  obtain ⟨later, hrun⟩ := processCommand_concludes clientID setValue
    (w := { w with out := none }) hu h
  rw [hj] at hrun
  rw [← after_withOut (φ := Option Json) w none]
  have hdone : Concludes _ later { w with out := none } (.ok
      { after lib recv clientID request { w with out := none } with out := some j }) := hrun
  have hblocking := withPromise_of_ok (await_of_concludes hdone rfl)
  exact hblocking

variable (clientID) in
theorem processCommandBlocking_handled (henc : recv.Encodes lib) (hu : request.utf8 = true)
    {w : World α τ} (h : Handled lib recv request w) : ∃ j, j.utf8 = true ∧
      (RequestProcessor.processCommandBlocking lib recv request clientID).run w =
        .ok j (after lib recv clientID request w) := by
  obtain ⟨j, hj, hju⟩ := commandReply_of_encodes clientID henc hu w.app
  exact ⟨j, hju, processCommandBlocking_ok hu h hj⟩

variable (clientID) in
theorem processCommandBlocking_stops {w : World α τ} (h : ¬ Handled lib recv request w) :
    ∃ e v, (RequestProcessor.processCommandBlocking lib recv request clientID).run w =
      .error (.threw e) v ∧ ∀ what, e ≠ .parseError what := by
  obtain ⟨e, v, hrun, he⟩ := processCommand_stops clientID setValue
    (w := { w with out := none }) h
  exact ⟨e, _, withPromise_of_error (bind_of_error hrun), he⟩

variable (lib recv clientID) in
/-- Every object of the batch is handled in the state in which its turn comes. -/
def BatchHandled (w : World α τ) : List Json → Prop
  | [] => True
  | entry :: array =>
    if entry.isObject then
      Handled lib recv entry w ∧ BatchHandled (after lib recv clientID entry w) array
    else BatchHandled w array

theorem processValidBatchBlocking_handled (henc : recv.Encodes lib) {array : List Json}
    (hu : Json.utf8Elements array = true) {w : World α τ}
    (h : BatchHandled lib recv clientID w array) (responses : List Json)
    (hr : Json.utf8Elements responses = true) : ∃ j v, j.utf8 = true ∧ v.out = w.out ∧
      (RequestProcessor.processValidBatchBlocking lib recv clientID array responses).run w =
        .ok j v := by
  induction array generalizing w responses with
  | nil =>
    refine ⟨_, w, ?_, rfl, rfl⟩
    split_ifs
    · rfl
    · exact hr
  | cons entry array ih =>
    simp only [Json.utf8Elements, Bool.and_eq_true] at hu
    simp only [BatchHandled] at h
    simp only [RequestProcessor.processValidBatchBlocking]
    split_ifs at h ⊢ with hobject
    · obtain ⟨response, hresponse, hrun⟩ :=
        processCommandBlocking_handled clientID henc hu.1 h.1
      have hr' : Json.utf8Elements
          (if response.isNull then responses else responses ++ [response]) = true := by
        split_ifs
        · exact hr
        · exact Json.utf8Elements_append hr hresponse
      obtain ⟨j, v, hj, hout, hrest⟩ := ih hu.2 h.2 _ hr'
      exact ⟨j, v, hj, hout.trans (after_out w), (bind_of_ok hrun).trans hrest⟩
    · have hinvalid : invalidRequest.Encodable lib := ⟨utf8_ascii (by decide), .inl rfl⟩
      obtain ⟨response, hresponse, hresponse'⟩ := makeErrorResponse_ok hinvalid Json.null_utf8
      rw [hresponse]
      exact ih hu.2 h _ (Json.utf8Elements_append hr hresponse')

theorem processValidBatchBlocking_stops {array : List Json} {w : World α τ}
    (henc : recv.Encodes lib) (hu : Json.utf8Elements array = true)
    (h : ¬ BatchHandled lib recv clientID w array) (responses : List Json) : ∃ e v,
      (RequestProcessor.processValidBatchBlocking lib recv clientID array responses).run w =
        .error (.threw e) v ∧ ∀ what, e ≠ .parseError what := by
  induction array generalizing w responses with
  | nil => exact absurd trivial h
  | cons entry array ih =>
    simp only [Json.utf8Elements, Bool.and_eq_true] at hu
    simp only [BatchHandled] at h
    simp only [RequestProcessor.processValidBatchBlocking]
    split_ifs at h ⊢ with hobject
    · by_cases hentry : Handled lib recv entry w
      · obtain ⟨response, -, hrun⟩ :=
          processCommandBlocking_handled clientID henc hu.1 hentry
        obtain ⟨e, v, hrest, he⟩ := ih hu.2 (fun hb => h ⟨hentry, hb⟩) _
        exact ⟨e, v, (bind_of_ok hrun).trans hrest, he⟩
      · obtain ⟨e, v, hrun, he⟩ := processCommandBlocking_stops clientID hentry
        exact ⟨e, v, bind_of_error hrun, he⟩
    · rw [makeErrorResponse_of_isEmpty rfl]
      exact ih hu.2 h _

theorem dump_utf8 {j : Json} (h : j.utf8 = true) : ∃ text, dump j = .ok text := by
  unfold dump
  split_ifs
  · exact ⟨_, rfl⟩
  · exact ⟨_, Json.dump_ok h⟩

theorem processBatchBlocking_handled (henc : recv.Encodes lib) {array : List Json}
    (hu : Json.utf8Elements array = true) {w : World α τ}
    (h : BatchHandled lib recv clientID w array) : ∃ text v, v.out = w.out ∧
      (RequestProcessor.processBatchBlocking lib recv array clientID).run w = .ok text v := by
  unfold RequestProcessor.processBatchBlocking
  split_ifs
  · exact ⟨_, w, rfl, rfl⟩
  · obtain ⟨j, v, hj, hout, hrun⟩ := processValidBatchBlocking_handled henc hu h [] rfl
    obtain ⟨text, htext⟩ := dump_utf8 hj
    refine ⟨text, v, hout, (bind_of_ok hrun).trans ?_⟩
    rw [htext]
    rfl

theorem processBatchBlocking_stops (henc : recv.Encodes lib) {array : List Json}
    (hu : Json.utf8Elements array = true) {w : World α τ}
    (h : ¬ BatchHandled lib recv clientID w array) : ∃ e v,
      (RequestProcessor.processBatchBlocking lib recv array clientID).run w =
        .error (.threw e) v ∧ ∀ what, e ≠ .parseError what := by
  unfold RequestProcessor.processBatchBlocking
  split_ifs with hnil
  · rw [List.isEmpty_iff] at hnil
    subst hnil
    exact absurd trivial h
  · obtain ⟨e, v, hrun, he⟩ := processValidBatchBlocking_stops henc hu h []
    exact ⟨e, v, bind_of_error hrun, he⟩

end Batches

section Messages
variable (recv : Receiver α)

/-- The callback of `process` is invoked once, before it returns or by the answer that the
application still owes, and no exception leaves it. -/
def ReturnsReplyingOnce (x : Effect α (List Text) (Option (Effect α (List Text) Unit)))
    (w : World α (List Text)) : Prop :=
  ∃ later v u text, x.run w = .ok later v ∧ (settle later).run v = .ok () u ∧
    u.out = w.out ++ [text]

/-- The conditions on a message: it is no number that overflows, what is quoted of a
malformed text is well-formed, and its objects can be handled. -/
def MessageHandled (request : Request) (w : World α (List Text)) : Prop :=
  match lib.parse request.message with
  | .value (.object members) _ => Handled lib recv (.object members) w
  | .value (.array elements) _ => BatchHandled lib recv request.clientID w elements
  | .value _ _ => True
  | .parseError what => utf8 what = true
  | .outOfRange => False

variable {lib recv} {w : World α (List Text)} {request : Request}

theorem processDocument_of_object (request : Request) {object : Json} {hu : object.utf8 = true}
    (hobject : object.isObject = true) (hp : lib.parse request.message = .value object hu) :
    RequestProcessor.processDocument lib recv request =
      RequestProcessor.processCommand lib recv object request.clientID stringifyCallback := by
  cases object with
  | object members =>
    simp only [RequestProcessor.processDocument, JsonLib.parseOrThrow, hp, ofExcept, pure_bind]
  | _ => cases hobject

theorem processDocument_of_array {elements : List Json} {hu : (Json.array elements).utf8 = true}
    (hp : lib.parse request.message = .value (.array elements) hu) :
    RequestProcessor.processDocument lib recv request = (do
      RequestProcessor.callback
        (← RequestProcessor.processBatchBlocking lib recv elements request.clientID)
      return none) := by
  simp only [RequestProcessor.processDocument, JsonLib.parseOrThrow, hp, ofExcept, pure_bind]

theorem process_of_ok {later : Option (Effect α (List Text) Unit)} {v : World α (List Text)}
    (h : (RequestProcessor.processDocument lib recv request).run w = .ok later v) :
    (RequestProcessor.process lib recv request).run w = .ok later v := by
  have h' : RequestProcessor.processDocument lib recv request w = .ok later v := h
  simp only [RequestProcessor.process, tryCatch, tryCatchThe, MonadExceptOf.tryCatch,
    EStateM.tryCatch, EStateM.run, h']

theorem process_of_error {e : Exn} {v : World α (List Text)}
    (h : (RequestProcessor.processDocument lib recv request).run w = .error (.threw e) v) :
    (RequestProcessor.process lib recv request).run w =
      match e with
      | .parseError what => ((do
          RequestProcessor.callback
            (← ofExcept (dump (makeErrorResponseData parseError .null (.string what))))
          return none) : Effect α (List Text) (Option (Effect α (List Text) Unit))).run v
      | e => .error (.threw e) v := by
  have h' : RequestProcessor.processDocument lib recv request w = .error (.threw e) v := h
  cases e <;> simp only [RequestProcessor.process, tryCatch, tryCatchThe,
    MonadExceptOf.tryCatch, EStateM.tryCatch, EStateM.run, h'] <;> rfl

/-- A malformed message, or an exception like that of one, is reported if its text can be
quoted. -/
theorem process_of_parseError {what : Bytes} {v : World α (List Text)}
    (h : (RequestProcessor.processDocument lib recv request).run w =
      .error (.threw (.parseError what)) v) :
    (utf8 what = true ∧ ∃ hu, (RequestProcessor.process lib recv request).run w = .ok none
      { v with out := v.out ++ [.dumped (makeErrorResponseData parseError .null (.string what)) hu] }) ∨
    utf8 what = false ∧
      (RequestProcessor.process lib recv request).run w = .error (.threw .typeError) v := by
  have hreply : (makeErrorResponseData parseError .null (.string what)).utf8 = utf8 what :=
    utf8_makeErrorResponseData (utf8_ascii (by decide)) Json.null_utf8
  have hdump := dump_of_not_null
    (show (makeErrorResponseData parseError .null (.string what)).isNull = false from rfl)
  have hrun := process_of_error h
  simp only [hdump] at hrun
  cases hw : utf8 what with
  | true =>
    rw [Json.dump_ok (hreply.trans hw)] at hrun
    exact .inl ⟨rfl, hreply.trans hw, hrun⟩
  | false =>
    rw [Json.dump_error (hreply.trans hw)] at hrun
    exact .inr ⟨rfl, hrun⟩

theorem process_of_thrown {e : Exn} {v : World α (List Text)}
    (h : (RequestProcessor.processDocument lib recv request).run w = .error (.threw e) v)
    (he : ∀ what, e ≠ .parseError what) :
    (RequestProcessor.process lib recv request).run w = .error (.threw e) v := by
  rw [process_of_error h]
  cases e with
  | parseError what => exact absurd rfl (he what)
  | _ => rfl

theorem replies_of_returned (later : Bool) {v : World α (List Text)} {text : Text}
    (h : Concludes (RequestProcessor.processDocument lib recv request) later w (.ok v))
    (hout : v.out = w.out ++ [text]) :
    ReturnsReplyingOnce (RequestProcessor.process lib recv request) w := by
  cases later with
  | false => exact ⟨none, v, v, text, process_of_ok h, rfl, hout⟩
  | true =>
    obtain ⟨completion, u, hu, -, hc⟩ := h
    exact ⟨some completion, u, v, text, process_of_ok hu, settle_of_ok hc, hout⟩

theorem not_replies_of_thrown {e : Exn} {v : World α (List Text)}
    (h : (RequestProcessor.processDocument lib recv request).run w = .error (.threw e) v)
    (he : ∀ what, e ≠ .parseError what) :
    ¬ ReturnsReplyingOnce (RequestProcessor.process lib recv request) w := by
  rintro ⟨later, u, x, text, hrun, -⟩
  cases hrun.symm.trans (process_of_thrown h he)

theorem object_replies_iff (henc : recv.Encodes lib) {members : List (Bytes × Json)}
    (hu : (Json.object members).utf8 = true)
    (hp : lib.parse request.message = .value (.object members) hu) :
    ReturnsReplyingOnce (RequestProcessor.process lib recv request) w ↔
      Handled lib recv (.object members) w := by
  have hdoc : RequestProcessor.processDocument lib recv request = _ :=
    processDocument_of_object request rfl hp
  constructor
  · intro h
    by_contra hh
    obtain ⟨e, v, hrun, he⟩ := processCommand_stops request.clientID stringifyCallback hh
    exact not_replies_of_thrown (hdoc ▸ hrun) he h
  · intro h
    obtain ⟨j, later, hj, hrun⟩ := processCommand_handled request.clientID stringifyCallback
      henc hu h
    obtain ⟨text, htext⟩ := dump_utf8 hj
    rw [← hdoc, stringifyCallback, htext] at hrun
    exact replies_of_returned later hrun rfl

theorem array_replies_iff (henc : recv.Encodes lib) {elements : List Json}
    (hu : (Json.array elements).utf8 = true)
    (hp : lib.parse request.message = .value (.array elements) hu) :
    ReturnsReplyingOnce (RequestProcessor.process lib recv request) w ↔
      BatchHandled lib recv request.clientID w elements := by
  have hdoc : RequestProcessor.processDocument lib recv request = _ :=
    processDocument_of_array hp
  constructor
  · intro h
    by_contra hh
    obtain ⟨e, v, hrun, he⟩ := processBatchBlocking_stops henc hu hh
    exact not_replies_of_thrown (hdoc ▸ bind_of_error hrun) he h
  · intro h
    obtain ⟨text, v, hout, hrun⟩ := processBatchBlocking_handled henc hu h
    refine replies_of_returned false
      (v := { v with out := v.out ++ [text] }) ?_ (by rw [hout])
    rw [hdoc]
    exact bind_of_ok hrun

theorem scalar_replies (h : RequestProcessor.processDocument lib recv request = (do
      RequestProcessor.callback
        (← ofExcept (do dump (← makeErrorResponse lib invalidParams .null)))
      return none)) : ReturnsReplyingOnce (RequestProcessor.process lib recv request) w := by
  obtain ⟨j, hj, hu⟩ := makeErrorResponse_ok (show invalidParams.Encodable lib from
    ⟨utf8_ascii (by decide), .inl rfl⟩) Json.null_utf8
  obtain ⟨text, htext⟩ := dump_utf8 hu
  refine replies_of_returned false
    (v := { w with out := w.out ++ [text] }) ?_ rfl
  rw [h, hj]
  simp only [Except.bind, bind, htext]
  rfl

theorem parseError_replies_iff {what : Bytes}
    (h : (RequestProcessor.processDocument lib recv request).run w =
      .error (.threw (.parseError what)) w) :
    ReturnsReplyingOnce (RequestProcessor.process lib recv request) w ↔ utf8 what = true := by
  rcases process_of_parseError h with ⟨hw, hu, hrun⟩ | ⟨hw, hrun⟩
  · exact iff_of_true ⟨none, _, _, _, hrun, rfl, rfl⟩ hw
  · refine iff_of_false ?_ (by simp [hw])
    rintro ⟨later, v, u, text, hok, -⟩
    cases hrun.symm.trans hok

/-- `process` returns and invokes its callback exactly once for exactly the messages that
meet the conditions, whatever the receiver has bound and whatever is pending in it. -/
theorem process_replies_once_iff (henc : recv.Encodes lib) (request : Request)
    (w : World α (List Text)) :
    ReturnsReplyingOnce (RequestProcessor.process lib recv request) w ↔
      MessageHandled lib recv request w := by
  unfold MessageHandled
  cases hp : lib.parse request.message with
  | outOfRange =>
    refine iff_of_false (not_replies_of_thrown (e := .outOfRange) (v := w) ?_
      fun _ => Exn.noConfusion) id
    simp only [RequestProcessor.processDocument, JsonLib.parseOrThrow, hp]
    rfl
  | parseError what =>
    have hrun : (RequestProcessor.processDocument lib recv request).run w =
        .error (.threw (.parseError what)) w := by
      simp only [RequestProcessor.processDocument, JsonLib.parseOrThrow, hp]
      rfl
    exact parseError_replies_iff hrun
  | value j hu =>
    cases j with
    | object members => exact object_replies_iff henc hu hp
    | array elements => exact array_replies_iff henc hu hp
    | _ =>
      refine iff_of_true (scalar_replies ?_) trivial
      simp only [RequestProcessor.processDocument, JsonLib.parseOrThrow, hp, ofExcept, pure_bind]

end Messages

section Samples
variable {lib}

/-- A receiver with one method, which always answers the same. -/
def pingReceiver (rep : Response) : Receiver Unit :=
  ((Receiver.new .receiver).bind (ascii "ping") fun _ app => (rep, app)).toOption.getD
    (.new .receiver)

theorem pingReceiver_methods (rep : Response) : (pingReceiver rep).methods =
    (∅ : OrderedMap Bytes (ResponseCallback Unit)).set (ascii "ping") fun _ app => (rep, app) :=
  rfl

theorem pingReceiver_encodes {rep : Response} (h : rep.Encoded lib) :
    (pingReceiver rep).Encodes lib where
  sync := by
    intro method action haction request app
    rw [pingReceiver_methods, OrderedMap.find?_set] at haction
    split_ifs at haction
    · obtain rfl := Option.some.inj haction
      exact h
    · cases haction
  async := by
    intro method func h
    cases h
  cancellable := by
    intro method func h
    cases h

def okResponse : Response :=
  { result := .dumped (.string (ascii "OK")) (utf8_ascii (by decide)) }

theorem okResponse_encoded : okResponse.Encoded lib := ⟨_, _, rfl⟩

def numericVersion : Bytes := ascii "\x7b\"jsonrpc\": 2\x7d"

/-- A number and a request for the method, in a batch. -/
def pingBatch : Bytes :=
  ascii "[7, \x7b\"id\": 1, \"jsonrpc\": \"2.0\", \"method\": \"ping\"\x7d]"

def sampleMessages : JsonLib := .ofTable [
  (numericVersion, .value (.object [(ascii "jsonrpc", .numberUnsigned 2)])
    (by simp (disch := decide) only [Json.utf8, Json.utf8Members, utf8_ascii, Bool.and_true])),
  (pingBatch, .value (.array [.numberUnsigned 7, .object [(ascii "id", .numberUnsigned 1),
      (ascii "jsonrpc", .string (ascii "2.0")), (ascii "method", .string (ascii "ping"))]])
    (by simp (disch := decide) only [Json.utf8, Json.utf8Elements, Json.utf8Members, utf8_ascii,
      Bool.and_true]))]

/-- A version that is a number ends `process` with a type error. -/
theorem numericVersion_throws : (pingReceiver okResponse).Encodes sampleMessages ∧
    ¬ ReturnsReplyingOnce (RequestProcessor.process sampleMessages (pingReceiver okResponse)
        { message := .bytes numericVersion, clientID := 1 })
      { app := (), requests := [], aborted := [], out := [] } :=
  ⟨pingReceiver_encodes okResponse_encoded, not_replies_of_thrown (e := .typeError) rfl fun _ => Exn.noConfusion⟩

theorem pingBatch_replies :
    ReturnsReplyingOnce (RequestProcessor.process sampleMessages (pingReceiver okResponse)
        { message := .bytes pingBatch, clientID := 1 })
      { app := (), requests := [], aborted := [], out := [] } :=
  (process_replies_once_iff (pingReceiver_encodes okResponse_encoded) _ _).mpr
    ⟨⟨rfl, rfl⟩, trivial⟩

end Samples
end Rockets.JsonRpc
