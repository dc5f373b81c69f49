import Rockets.JsonRpcProperReplies

set_option autoImplicit false

/-!
# Batches

A batch against its entries processed one at a time as single messages. The two agree as
long as the reply to every entry can be made.
-/
namespace Rockets.JsonRpc
variable {α τ : Type} (lib : JsonLib) (recv : Receiver α)

section Single

def finish (x : Effect α τ (Option (Effect α τ Unit))) (w : World α τ) : World α τ :=
  match x.run w with
  | .error _ v => v
  | .ok later v => match (settle later).run v with
    | .ok _ u | .error _ u => u

def invalidEntryReply : Json :=
  makeErrorResponseJson (.object [(ascii "code", .numberInteger invalidRequest.code),
    (ascii "message", .string invalidRequest.message)]) .null

theorem utf8_invalidEntryReply : invalidEntryReply.utf8 = true := by
  refine utf8_makeErrorResponseJson ?_ rfl
  simp (disch := decide) only [Json.utf8, Json.utf8Members, invalidRequest, utf8_ascii,
    Bool.and_true]

/-- The non-empty replies to the entries when each object is a message of its own, given by
its text, and the receiver afterwards. -/
def singly (text : Json → Text) (clientID : ℕ) :
    List Json → World α (List Text) → List Text × World α (List Text)
  | [], w => ([], w)
  | entry :: array, w =>
    if entry.isObject then
      let v := finish (RequestProcessor.process lib recv { message := text entry, clientID })
        { w with out := [] }
      let (replies, u) := singly text clientID array { v with out := w.out }
      (v.out.filter (!·.isEmpty) ++ replies, u)
    else
      let (replies, u) := singly text clientID array w
      (.dumped invalidEntryReply utf8_invalidEntryReply :: replies, u)

def IsTextOf (reply : Text) (j : Json) : Prop := ∃ hj, reply = .dumped j hj

def IsArrayOf (replies : List Text) (t : Text) : Prop :=
  if replies.isEmpty then t = .bytes []
  else ∃ js h, t = .dumped (.array js) h ∧ List.Forall₂ IsTextOf replies js

/-- The batch returns the replies of its entries, and leaves the receiver and the application
as the single messages do. -/
def BatchAgrees (text : Json → Text) (elements : List Json) (request : Request)
    (w : World α (List Text)) : Prop :=
  ∃ t, (RequestProcessor.process lib recv request).run w =
      .ok none { (singly lib recv text request.clientID elements w).2 with out := w.out ++ [t] } ∧
    IsArrayOf (singly lib recv text request.clientID elements w).1 t

end Single

section Clean

def Response.Repliable (rep : Response) : Prop :=
  rep.Buildable lib ∧ (rep.isError = true → utf8 rep.error.message = true)

/-- An object is handled without an exception, and so is the response of its action. -/
def EntryClean (clientID : ℕ) (entry : Json) (w : World α τ) : Prop :=
  Handled lib recv entry w ∧ ∀ c deed, asCall recv entry = some c →
    isCancelCall recv c = false → c.id.isNull = false →
    recv.deed lib c.id c.method { message := c.params, clientID } w.app = some deed →
    deed.given.response.Repliable lib

/-- Every object of the batch is clean in the state in which its turn comes. -/
def BatchClean (clientID : ℕ) : World α τ → List Json → Prop
  | _, [] => True
  | w, entry :: array =>
    if entry.isObject then
      EntryClean lib recv clientID entry w ∧
        BatchClean clientID (after lib recv clientID entry w) array
    else BatchClean clientID w array

variable {lib recv}

theorem utf8_message {error : Response.Error} {id j : Json}
    (h : makeErrorResponse lib error id = .ok j) (hj : j.utf8 = true) :
    utf8 error.message = true := by
  obtain ⟨e, rfl, -, hmessage⟩ := makeErrorResponse_reports h
  have he : e.utf8 = true := Json.utf8_of_find? hj (find?_makeErrorResponseJson e id).2.2.1
  have hstring : (Json.string error.message).utf8 = true := Json.utf8_of_find? he hmessage
  simpa only [Json.utf8] using hstring

theorem makeResponse_utf8_iff {rep : Response} {id : Json} (hid : id.utf8 = true) :
    (∃ j, makeResponse lib rep id = .ok j ∧ j.utf8 = true) ↔ rep.Repliable lib := by
  constructor
  · rintro ⟨j, hj, hju⟩
    refine ⟨?_, fun herror => ?_⟩
    · by_contra hb
      obtain ⟨e, he⟩ := makeResponse_of_not_buildable id hb
      cases hj.symm.trans he
    · rw [makeResponse, if_pos herror] at hj
      exact utf8_message hj hju
  · rintro ⟨hb, hm⟩
    exact makeResponse_of_buildable hid hm hb

theorem replyJson_utf8_iff {rep : Response} {id : Json} (hid : id.utf8 = true) :
    (∃ j, replyJson lib id rep = .ok j ∧ j.utf8 = true) ↔
      (id.isNull = false → rep.Repliable lib) := by
  unfold replyJson
  cases id.isNull with
  | true => exact iff_of_true ⟨.null, rfl, rfl⟩ nofun
  | false =>
    simp only [Bool.false_eq_true, if_false, true_imp_iff]
    exact makeResponse_utf8_iff hid

theorem entryClean_iff {clientID : ℕ} {entry : Json} {w : World α τ} (hu : entry.utf8 = true) :
    EntryClean lib recv clientID entry w ↔ Handled lib recv entry w ∧
      ∃ j, commandReply lib recv clientID entry w.app = .ok j ∧ j.utf8 = true := by
  refine and_congr_right fun _ => ?_
  cases hcall : asCall recv entry with
  | none =>
    refine iff_of_true (fun c deed h => by cases h) ?_
    exact commandReply_of_none lib clientID hcall hu w.app
  | some c =>
    cases hcancel : isCancelCall recv c with
    | true =>
      refine iff_of_true (fun c' deed h hc => ?_) ?_
      · obtain rfl := Option.some.inj h
        cases hcancel.symm.trans hc
      · exact ⟨.null, commandReply_of_cancel hcall hcancel w.app, rfl⟩
    | false =>
      obtain ⟨deed, hdeed⟩ := deed_of_call lib clientID hcall hcancel w.app
      rw [commandReply_of_deed hcall hcancel hdeed,
        replyJson_utf8_iff (asCall_id_utf8 hu hcall)]
      constructor
      · intro h
        exact fun hid => h c deed rfl hcancel hid hdeed
      · intro h c' deed' hc' _ hid hdeed'
        obtain rfl := Option.some.inj hc'
        obtain rfl := Option.some.inj (hdeed.symm.trans hdeed')
        exact h hid

end Clean

section Agreement
variable {lib recv} {clientID : ℕ} {text : Json → Text} {entry : Json} {array : List Json}
  {w : World α (List Text)}

theorem finish_of_concludes {x : Effect α τ (Option (Effect α τ Unit))} {later : Bool}
    {w v : World α τ} (h : Concludes x later w (.ok v)) : finish x w = v := by
  unfold finish
  cases later with
  | false =>
    have hrun : x.run w = .ok none v := h
    rw [hrun]
    rfl
  | true =>
    obtain ⟨completion, u, hu, -, hc⟩ := h
    simp only [hu, settle_of_ok hc]

theorem after_setOut (w : World α τ) (out : τ) :
    after lib recv clientID entry { w with out } =
      { after lib recv clientID entry w with out } := by
  have hout : (after lib recv clientID entry { w with out }).out = out := after_out _
  rw [← after_withOut (φ := τ) w out]
  exact congrArg (fun o => { after lib recv clientID entry { w with out } with out := o }) hout

theorem single_reply (hobject : entry.isObject = true) {hu : entry.utf8 = true}
    (hp : lib.parse (text entry) = .value entry hu) (h : Handled lib recv entry w) {j : Json}
    (hj : commandReply lib recv clientID entry w.app = .ok j) {t : Text} (ht : dump j = .ok t) :
    finish (RequestProcessor.process lib recv { message := text entry, clientID })
      { w with out := [] } = { after lib recv clientID entry w with out := [t] } := by
  obtain ⟨later, hrun⟩ := processCommand_concludes clientID stringifyCallback
    (w := { w with out := [] }) hu h
  rw [hj] at hrun
  simp only [bind, Except.bind] at hrun
  rw [stringifyCallback, ht, after_setOut] at hrun
  rw [← processDocument_of_object { message := text entry, clientID } hobject hp] at hrun
  exact finish_of_concludes (process_concludes_of_document hrun)

theorem singly_of_not_object (h : entry.isObject = false) :
    singly lib recv text clientID (entry :: array) w =
      (.dumped invalidEntryReply utf8_invalidEntryReply ::
        (singly lib recv text clientID array w).1, (singly lib recv text clientID array w).2) := by
  simp only [singly, h, Bool.false_eq_true, if_false]

/-- The replies of a batch, and the single replies to its entry and to the rest. -/
theorem singly_of_object (hobject : entry.isObject = true) {hu : entry.utf8 = true}
    (hp : lib.parse (text entry) = .value entry hu) (h : Handled lib recv entry w) {j : Json}
    (hj : commandReply lib recv clientID entry w.app = .ok j) {t : Text} (ht : dump j = .ok t) :
    singly lib recv text clientID (entry :: array) w =
      ([t].filter (!·.isEmpty) ++
        (singly lib recv text clientID array (after lib recv clientID entry w)).1,
        (singly lib recv text clientID array (after lib recv clientID entry w)).2) := by
  have hrest : ({ after lib recv clientID entry w with out := w.out } : World α (List Text)) =
      after lib recv clientID entry w := by
    have hout : (after lib recv clientID entry w).out = w.out := after_out w
    rw [← hout]
  simp only [singly, hobject, if_true, single_reply hobject hp h hj ht, hrest]

theorem makeErrorResponse_invalidRequest :
    makeErrorResponse lib invalidRequest .null = .ok invalidEntryReply :=
  makeErrorResponse_of_isEmpty rfl .null

theorem reply_cases {j : Json} (hju : j.utf8 = true) :
    (j.isNull = true ∧ dump j = .ok (.bytes [])) ∨
      j.isNull = false ∧ dump j = .ok (.dumped j hju) := by
  cases hnull : j.isNull with
  | true => exact .inl ⟨rfl, by rw [dump, hnull]; rfl⟩
  | false => exact .inr ⟨rfl, (dump_of_not_null hnull).trans (Json.dump_ok hju)⟩

/-- The loop over a clean batch collects the values of the single replies. -/
theorem processValidBatchBlocking_clean
    (htext : ∀ entry ∈ array, entry.isObject = true →
      ∃ h, lib.parse (text entry) = .value entry h)
    (h : BatchClean lib recv clientID w array) (responses : List Json) :
    ∃ js, (RequestProcessor.processValidBatchBlocking lib recv clientID array responses).run w =
        .ok (if (responses ++ js).isEmpty then .null else .array (responses ++ js))
          (singly lib recv text clientID array w).2 ∧
      Json.utf8Elements js = true ∧
      List.Forall₂ IsTextOf (singly lib recv text clientID array w).1 js := by
  induction array generalizing w responses with
  | nil => exact ⟨[], by rw [List.append_nil]; rfl, rfl, .nil⟩
  | cons entry array ih =>
    have htail := fun e he => htext e (List.mem_cons_of_mem _ he)
    simp only [BatchClean] at h
    simp only [RequestProcessor.processValidBatchBlocking]
    cases hobject : entry.isObject with
    | false =>
      simp only [hobject, Bool.false_eq_true, if_false] at h ⊢
      obtain ⟨js, hrun, hjs, hreplies⟩ := ih htail h (responses ++ [invalidEntryReply])
      rw [makeErrorResponse_invalidRequest, singly_of_not_object hobject]
      rw [List.append_assoc, List.singleton_append] at hrun
      refine ⟨invalidEntryReply :: js, hrun, ?_, .cons ⟨_, rfl⟩ hreplies⟩
      simp only [Json.utf8Elements, utf8_invalidEntryReply, hjs, Bool.and_self]
    | true =>
      simp only [hobject, if_true] at h ⊢
      obtain ⟨hu, hp⟩ := htext entry (List.mem_cons_self ..) hobject
      obtain ⟨⟨hhandled, j, hj, hju⟩, hrest⟩ := (and_congr_left' (entryClean_iff hu)).mp h
      rw [bind_of_ok (processCommandBlocking_ok hu hhandled hj)]
      rcases reply_cases hju with ⟨hnull, ht⟩ | ⟨hnull, ht⟩
      · simp only [hnull, if_true]
        rw [singly_of_object hobject hp hhandled hj ht]
        exact ih htail hrest responses
      · simp only [hnull, Bool.false_eq_true, if_false]
        obtain ⟨js, hrun, hjs, hreplies⟩ := ih htail hrest (responses ++ [j])
        rw [singly_of_object hobject hp hhandled hj ht]
        rw [List.append_assoc, List.singleton_append] at hrun
        refine ⟨j :: js, hrun, ?_, .cons ⟨hju, rfl⟩ hreplies⟩
        simp only [Json.utf8Elements, hju, hjs, Bool.and_self]

variable (clientID array) in
/-- The loop ends by an exception, or with responses after those it has. -/
theorem processValidBatchBlocking_cases (w : World α τ) (responses : List Json) :
    (∃ s v, (RequestProcessor.processValidBatchBlocking lib recv clientID array
      responses).run w = .error s v) ∨
    ∃ js v, (RequestProcessor.processValidBatchBlocking lib recv clientID array
      responses).run w =
        .ok (if (responses ++ js).isEmpty then .null else .array (responses ++ js)) v := by
  induction array generalizing w responses with
  | nil => exact .inr ⟨[], w, by rw [List.append_nil]; rfl⟩
  | cons entry array ih =>
    simp only [RequestProcessor.processValidBatchBlocking]
    split_ifs with hobject
    · cases hrun : (RequestProcessor.processCommandBlocking lib recv entry clientID).run w with
      | error s v => exact .inl ⟨s, v, bind_of_error hrun⟩
      | ok j v =>
        rw [bind_of_ok hrun]
        split_ifs
        · exact ih v responses
        · rcases ih v (responses ++ [j]) with hstop | ⟨js, u, hu⟩
          · exact .inl hstop
          · exact .inr ⟨j :: js, u, by rw [hu, List.append_assoc, List.singleton_append]⟩
    · rw [makeErrorResponse_invalidRequest]
      rcases ih w (responses ++ [invalidEntryReply]) with hstop | ⟨js, u, hu⟩
      · exact .inl hstop
      · refine .inr ⟨invalidEntryReply :: js, u, ?_⟩
        rw [List.append_assoc, List.singleton_append] at hu
        exact hu

theorem await_of_stopped {x : Effect α (Option Json) (Option (Effect α (Option Json) Unit))}
    {later : Bool} {w : World α (Option Json)} {e : Exn} (h : Concludes x later w (.error e))
    (hout : w.out = none) : ∃ s v, (do await (← x)).run w = .error s v := by
  cases later with
  | false =>
    obtain ⟨v, hv, -⟩ := h
    exact ⟨_, v, bind_of_error hv⟩
  | true =>
    obtain ⟨completion, u, hu, huout, v, hv, hvout⟩ := h
    refine ⟨.blocked, v, (bind_of_ok hu).trans ((bind_of_ok (settle_of_error hv)).trans ?_)⟩
    rw [EStateM.run_bind, EStateM.run_get]
    simp only [hvout.trans (huout.trans hout)]
    rfl

theorem processCommandBlocking_unbuilt (hu : entry.utf8 = true) {w : World α τ}
    (h : Handled lib recv entry w) {e : Exn}
    (he : commandReply lib recv clientID entry w.app = .error e) : ∃ s v,
      (RequestProcessor.processCommandBlocking lib recv entry clientID).run w = .error s v := by
  obtain ⟨later, hrun⟩ := processCommand_concludes clientID setValue
    (w := { w with out := none }) hu h
  rw [he] at hrun
  obtain ⟨s, v, hv⟩ := await_of_stopped hrun rfl
  exact ⟨s, _, withPromise_of_error hv⟩

theorem utf8_of_append_cons {responses js : List Json} {j : Json}
    (h : Json.utf8Elements (responses ++ j :: js) = true) : j.utf8 = true :=
  Json.utf8_of_mem h (List.mem_append_right _ (List.mem_cons_self ..))

/-- A batch that is not clean ends by an exception or gives a value that cannot be dumped. -/
theorem processValidBatchBlocking_unclean (hu : Json.utf8Elements array = true) {w : World α τ}
    (h : ¬ BatchClean lib recv clientID w array) (responses : List Json) :
    (∃ s v, (RequestProcessor.processValidBatchBlocking lib recv clientID array
      responses).run w = .error s v) ∨
    ∃ j v, (RequestProcessor.processValidBatchBlocking lib recv clientID array
      responses).run w = .ok j v ∧ j.isNull = false ∧ j.utf8 = false := by
  induction array generalizing w responses with
  | nil => exact absurd trivial h
  | cons entry array ih =>
    simp only [Json.utf8Elements, Bool.and_eq_true] at hu
    simp only [BatchClean] at h
    simp only [RequestProcessor.processValidBatchBlocking]
    split_ifs at h ⊢ with hobject
    · by_cases hhandled : Handled lib recv entry w
      · cases hreply : commandReply lib recv clientID entry w.app with
        | error e =>
          obtain ⟨s, v, hv⟩ := processCommandBlocking_unbuilt hu.1 hhandled hreply
          exact .inl ⟨s, v, bind_of_error hv⟩
        | ok j =>
          rw [bind_of_ok (processCommandBlocking_ok hu.1 hhandled hreply)]
          cases hju : j.utf8 with
          | true =>
            have hclean : EntryClean lib recv clientID entry w :=
              (entryClean_iff hu.1).mpr ⟨hhandled, j, hreply, hju⟩
            exact ih hu.2 (fun hb => h ⟨hclean, hb⟩) _
          | false =>
            have hnull : j.isNull = false := by
              cases j with
              | null => cases hju
              | _ => rfl
            simp only [hnull, Bool.false_eq_true, if_false]
            rcases processValidBatchBlocking_cases clientID array
              (after lib recv clientID entry w) (responses ++ [j]) with hstop | ⟨js, v, hv⟩
            · exact .inl hstop
            · refine .inr ⟨_, v, hv, ?_, ?_⟩
              · rw [List.append_assoc, List.singleton_append, if_neg (by simp)]
                rfl
              · rw [List.append_assoc, List.singleton_append, if_neg (by simp)]
                by_contra hall
                have hj := utf8_of_append_cons (by simpa [Json.utf8] using hall)
                simp [hju] at hj
      · obtain ⟨e, v, hv, -⟩ := processCommandBlocking_stops clientID hhandled
        exact .inl ⟨_, v, bind_of_error hv⟩
    · rw [makeErrorResponse_invalidRequest]
      exact ih hu.2 h _

theorem singly_out (array : List Json) (w : World α (List Text)) :
    (singly lib recv text clientID array w).2.out = w.out := by
  induction array generalizing w with
  | nil => rfl
  | cons entry array ih =>
    simp only [singly]
    split_ifs
    · exact ih _
    · exact ih w

section Message
variable {request : Request} {elements : List Json} {hu : (Json.array elements).utf8 = true}

theorem processBatchBlocking_of_ne (hne : elements ≠ []) :
    (RequestProcessor.processBatchBlocking lib recv elements clientID : Effect α τ Text) = (do
      ofExcept (dump
        (← RequestProcessor.processValidBatchBlocking lib recv clientID elements []))) := by
  unfold RequestProcessor.processBatchBlocking
  rw [if_neg (by simpa using hne)]

theorem isArrayOf_dump {replies : List Text} {js : List Json}
    (h : List.Forall₂ IsTextOf replies js) (hjs : Json.utf8Elements js = true) :
    ∃ t, dump (if js.isEmpty then .null else .array js) = .ok t ∧ IsArrayOf replies t := by
  cases h with
  | nil => exact ⟨.bytes [], rfl, rfl⟩
  | @cons reply j replies js hreply hreplies =>
    have harray : (Json.array (j :: js)).utf8 = true := by rwa [Json.utf8]
    exact ⟨_, Json.dump_ok harray, _, harray, rfl, .cons hreply hreplies⟩

theorem agrees_of_clean (hp : lib.parse request.message = .value (.array elements) hu)
    (hne : elements ≠ []) (htext : ∀ entry ∈ elements, entry.isObject = true →
      ∃ h, lib.parse (text entry) = .value entry h)
    (h : BatchClean lib recv request.clientID w elements) :
    BatchAgrees lib recv text elements request w := by
  obtain ⟨js, hrun, hjs, hreplies⟩ := processValidBatchBlocking_clean htext h []
  rw [List.nil_append] at hrun
  obtain ⟨t, ht, harray⟩ := isArrayOf_dump hreplies hjs
  have hbatch : (RequestProcessor.processBatchBlocking lib recv elements
      request.clientID).run w =
        .ok t (singly lib recv text request.clientID elements w).2 := by
    rw [processBatchBlocking_of_ne hne, bind_of_ok hrun, ht]
    rfl
  have hout : (singly lib recv text request.clientID elements w).2.out = w.out :=
    singly_out elements w
  refine ⟨t, process_of_ok ?_, harray⟩
  rw [processDocument_of_array hp, bind_of_ok hbatch, ← hout]
  rfl

/-- An exception of the batch leaves at best one object, the report of a parse error. -/
theorem process_of_stop {s : Stop} {v u : World α (List Text)} {t : Text}
    (hstop : (RequestProcessor.processDocument lib recv request).run w = .error s v)
    (h : (RequestProcessor.process lib recv request).run w =
      .ok none { u with out := w.out ++ [t] }) :
    ∃ what ht, t = .dumped (makeErrorResponseData parseError .null (.string what)) ht := by
  cases s with
  | blocked =>
    have hrun : RequestProcessor.processDocument lib recv request w = .error .blocked v := hstop
    simp only [RequestProcessor.process, tryCatch, tryCatchThe, MonadExceptOf.tryCatch,
      EStateM.tryCatch, EStateM.run, hrun] at h
    cases h
  | threw e =>
    by_cases he : ∃ what, e = .parseError what
    · obtain ⟨what, rfl⟩ := he
      rcases process_of_parseError hstop with ⟨-, hu, hrun⟩ | ⟨-, hrun⟩
      · have hout : v.out ++ [.dumped _ hu] = w.out ++ [t] :=
          congrArg World.out (EStateM.Result.ok.inj (hrun.symm.trans h)).2
        have htext := List.append_inj_right' hout rfl
        exact ⟨what, hu, (List.singleton_inj.mp htext).symm⟩
      · cases hrun.symm.trans h
    · cases (process_of_thrown hstop (not_exists.mp he)).symm.trans h

theorem not_agrees_of_stop {s : Stop} {v : World α (List Text)}
    (hstop : (RequestProcessor.processDocument lib recv request).run w = .error s v) :
    ¬ BatchAgrees lib recv text elements request w := by
  rintro ⟨t, hrun, harray⟩
  obtain ⟨what, ht, rfl⟩ := process_of_stop hstop hrun
  unfold IsArrayOf at harray
  split_ifs at harray
  obtain ⟨js, h, heq, -⟩ := harray
  have hobject := Text.dumped.inj heq
  rw [makeErrorResponseData_eq, makeErrorResponseJson_eq] at hobject
  cases hobject

theorem not_agrees_of_unclean
    (hp : lib.parse request.message = .value (.array elements) hu) (hne : elements ≠ [])
    (h : ¬ BatchClean lib recv request.clientID w elements) :
    ¬ BatchAgrees lib recv text elements request w := by
  have hdocument : RequestProcessor.processDocument lib recv request = _ :=
    processDocument_of_array hp
  rw [processBatchBlocking_of_ne hne] at hdocument
  rcases processValidBatchBlocking_unclean hu h [] with
    ⟨s, v, hstop⟩ | ⟨j, v, hrun, hnull, hju⟩
  · refine not_agrees_of_stop (s := s) (v := v) ?_
    rw [hdocument]
    exact bind_of_error (bind_of_error hstop)
  · refine not_agrees_of_stop (s := .threw .typeError) (v := v) ?_
    have hdump : dump j = .error .typeError := (dump_of_not_null hnull).trans (Json.dump_error hju)
    rw [hdocument]
    refine bind_of_error ?_
    rw [bind_of_ok hrun, hdump]
    rfl

variable (w) in
/-- A batch is handled as its entries are one at a time if and only if every object of it is
clean in the state in which its turn comes. -/
theorem batch_agrees_iff (hp : lib.parse request.message = .value (.array elements) hu)
    (hne : elements ≠ []) (htext : ∀ entry ∈ elements, entry.isObject = true →
      ∃ h, lib.parse (text entry) = .value entry h) :
    BatchAgrees lib recv text elements request w ↔
      BatchClean lib recv request.clientID w elements := by
  constructor
  · intro h
    by_contra hunclean
    exact not_agrees_of_unclean hp hne hunclean h
  · exact agrees_of_clean hp hne htext

end Message

end Agreement

section Samples

def failRequest : Json := .object [(ascii "id", .numberUnsigned 2),
  (ascii "jsonrpc", .string (ascii "2.0")), (ascii "method", .string (ascii "fail"))]

theorem failRequest_utf8 : failRequest.utf8 = true := by
  simp (disch := decide) only [failRequest, Json.utf8, Json.utf8Members, utf8_ascii,
    Bool.and_true]

def entryText (entry : Json) : Text :=
  if h : entry.utf8 = true then .dumped entry h else .bytes []

def pingFailReceiver : Receiver Unit :=
  ((pingReceiver okResponse).bind (ascii "fail") fun _ app =>
    (plainDataError, app)).toOption.getD (.new .receiver)

theorem pingFail_utf8 : (Json.array [pingRequest, failRequest]).utf8 = true := by
  simp only [Json.utf8, Json.utf8Elements, pingRequest_utf8, failRequest_utf8, Bool.and_self]

theorem pingSeven_utf8 : (Json.array [pingRequest, .numberUnsigned 7]).utf8 = true := by
  simp only [Json.utf8, Json.utf8Elements, pingRequest_utf8, Bool.and_self]

/-- The error data of the second entry makes a parse error of the whole batch. -/
theorem pingFail_disagrees : ¬ BatchAgrees sampleRequests pingFailReceiver entryText
    [pingRequest, failRequest] { message := .dumped _ pingFail_utf8, clientID := 1 } freshWorld := by
  refine not_agrees_of_unclean rfl (List.cons_ne_nil _ _) fun h => ?_
  have hfail := h.2.1.2 { id := .numberUnsigned 2, method := ascii "fail", params := .bytes [] }
    { given := .now plainDataError, app := (), requests := id } rfl rfl rfl rfl
  rcases hfail.1 with hempty | ⟨data, hu, hdata⟩
  · cases hempty
  · cases hdata

theorem pingSeven_agrees : BatchAgrees sampleRequests (pingReceiver okResponse) entryText
    [pingRequest, .numberUnsigned 7] { message := .dumped _ pingSeven_utf8, clientID := 1 }
      freshWorld := by
  refine (batch_agrees_iff freshWorld rfl (List.cons_ne_nil _ _) ?_).mpr ?_
  · rintro entry hentry hobject
    rcases List.mem_pair.mp hentry with rfl | rfl
    · exact ⟨pingRequest_utf8, by rw [entryText, dif_pos pingRequest_utf8]; rfl⟩
    · cases hobject
  · refine ⟨⟨⟨rfl, rfl⟩, fun c deed hc _ _ hdeed => ?_⟩, trivial⟩
    obtain rfl : pingCall = c := Option.some.inj hc
    obtain rfl := Option.some.inj ((deed_ping okResponse _).symm.trans hdeed)
    exact ⟨fun h => (by cases h), fun h => (by cases h)⟩

end Samples

end Rockets.JsonRpc
