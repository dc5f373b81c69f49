import Rockets.HttpClient

set_option autoImplicit false

/-!
# Bodies of HTTP responses

Whether a response has a body is decided from its headers, and the body arrives after them:
a client reads exactly the bodies whose length the headers tell.
-/
namespace Rockets.Http.Client

/-- A response as a server sends it: a body without a `Content-Length` is chunked. -/
structure ServerResponse where
  head : Head
  chunks : List Bytes
  nonempty : ∀ chunk ∈ chunks, chunk ≠ []
  framed : head.contentLength = [] ∨
    head.contentLength ≠ [] ∧ head.contentLength.all isDigit = true ∧
      numeral head.contentLength = chunks.flatten.length

def Reason.isFailure : Reason → Bool
  | .closed => true
  | .connectionError message _ => !isNotARealConnectionError message
  | _ => false

def chunksOf (log : List Reason) : List Bytes :=
  log.filterMap fun
    | .read data => some data
    | _ => none

/-- What libwebsockets reports of a response; one with a status code that it does not
recognize ends with the headers. -/
def ServerResponse.delivery (isRecognized : ℕ → Bool) (r : ServerResponse) : List Reason :=
  if isRecognized r.head.code then
    .established r.head :: (r.chunks.map .read ++ [.completed])
  else [.connectionError unrecognizedCode r.head]

/-- The headers tell that the body that follows them is there. -/
def ServerResponse.Told (isRecognized : ℕ → Bool) (r : ServerResponse) : Prop :=
  isRecognized r.head.code = true ∧ r.head.contentLength ≠ [] ∧
    r.head.contentLength.length < 511 ∧ numeral r.head.contentLength < 2 ^ 31

/-- The client, and for the pointer of each connection the call it was started for with what
was reported since. -/
structure Reception where
  client : State := {}
  connection : ℕ → Option (ℕ × List Reason) := fun _ => none

namespace Reception
variable (isRecognized : ℕ → Bool) (response : ℕ → ServerResponse)

/-- A connection that was not closed reports the response to its call, or a failure. -/
def Enabled (t : Reception) (e : Event) : Prop :=
  t.client.Enabled e ∧
    match e with
    | .lws wsi reason => reason.isFailure = true ∨ wsi ∉ t.client.closing ∧
      ∀ call log, t.connection wsi = some (call, log) →
        log ++ [reason] <+: (response call).delivery isRecognized
    | _ => True

def next (t : Reception) (e : Event) : Reception where
  client := t.client.next e
  connection := match e with
    | .request (some wsi) => Function.update t.connection wsi (some (t.client.calls, []))
    | .lws wsi reason => Function.update t.connection wsi
      ((t.connection wsi).map fun (call, log) => (call, log ++ [reason]))
    | _ => t.connection

def machine : Machine Reception Event where
  init := {}
  Enabled := Enabled isRecognized response
  next := next

def Ends (t : Reception) (wsi : ℕ) (reason : Reason) : Prop :=
  (t.client.callbackHttp wsi reason).serving = some (.finish wsi) ∨
    wsi ∈ (t.client.callbackHttp wsi reason).closing

/-- The response to the call is not ended before its last chunk, and its body is that of all
chunks, in every run of the client. -/
def Whole (call : ℕ) : Prop :=
  ∀ es t, (machine isRecognized response).Run es t →
    (∀ i ∈ t.client.invocations, i.call = call → ∀ received, i.outcome = .response received →
      received.body = (response call).chunks.flatten) ∧
    ∀ wsi reason log, t.connection wsi = some (call, log) → reason.isFailure = false →
      Enabled isRecognized response t (.lws wsi reason) → t.Ends wsi reason →
      chunksOf (log ++ [reason]) = (response call).chunks

end Reception

section Callbacks
variable {isRecognized : ℕ → Bool} {response : ℕ → ServerResponse} {s : State} {w : ℕ}

@[simp] theorem chunksOf_append (log log' : List Reason) :
    chunksOf (log ++ log') = chunksOf log ++ chunksOf log' :=
  List.filterMap_append

theorem chunksOf_map_read (chunks : List Bytes) : chunksOf (chunks.map .read) = chunks := by
  simp [chunksOf, List.filterMap_map]

@[simp] theorem requests_finishRequest (s : State) (w : ℕ) :
    (s.finishRequest w).requests = s.requests := by
  unfold State.finishRequest
  split <;> rfl

@[simp] theorem requests_abortRequest (s : State) (w : ℕ) (reason : Bytes) :
    (s.abortRequest w reason).requests = s.requests := by
  unfold State.abortRequest
  split <;> rfl

theorem find?_readHeaders {head : Head} {v : ℕ} {q : RequestHandler}
    (h : (s.readHeaders w head).requests.find? v = some q) :
    ∃ q', s.requests.find? v = some q' ∧ q.call = q'.call ∧
      q.response.body = q'.response.body := by
  unfold State.readHeaders at h
  cases hw : s.requests.find? w with
  | none =>
    rw [hw] at h
    exact ⟨q, h, rfl, rfl⟩
  | some r =>
    simp only [hw, OrderedMap.find?_set] at h
    split_ifs at h with hv
    · obtain rfl := Option.some.inj h
      exact ⟨r, hv ▸ hw, rfl, rfl⟩
    · exact ⟨q, h, rfl, rfl⟩

theorem find?_callbackHttp {reason : Reason} {v : ℕ} {q : RequestHandler}
    (h : (s.callbackHttp w reason).requests.find? v = some q) :
    ∃ q', s.requests.find? v = some q' ∧ q.call = q'.call ∧ q.response.body =
      q'.response.body ++ if v = w then (chunksOf [reason]).flatten else [] := by
  cases reason with
  | established head =>
    have hread : (s.readHeaders w head).requests.find? v = some q := by
      simp only [State.callbackHttp] at h
      split at h
      · exact h
      · split_ifs at h
        · exact h
        · simpa [State.close] using h
    simpa [chunksOf] using find?_readHeaders hread
  | read data =>
    simp only [State.callbackHttp] at h
    cases hw : s.requests.find? w with
    | none =>
      rw [hw] at h
      refine ⟨q, h, rfl, ?_⟩
      have hv : v ≠ w := by
        rintro rfl
        simp [hw] at h
      simp [hv]
    | some r =>
      simp only [hw, OrderedMap.find?_set] at h
      split_ifs at h with hv
      · obtain rfl := Option.some.inj h
        exact ⟨r, hv ▸ hw, rfl, by simp [hv, chunksOf, RequestHandler.appendToResponseBody]⟩
      · exact ⟨q, h, rfl, by simp [hv]⟩
  | completed => exact ⟨q, by simpa [State.callbackHttp] using h, rfl, by simp [chunksOf]⟩
  | closed => exact ⟨q, by simpa [State.callbackHttp] using h, rfl, by simp [chunksOf]⟩
  | connectionError message head =>
    simp only [State.callbackHttp] at h
    split_ifs at h
    · simp only [State.close, requests_finishRequest] at h
      simpa [chunksOf] using find?_readHeaders h
    · simp only [State.close, requests_abortRequest] at h
      exact ⟨q, h, rfl, by simp [chunksOf]⟩

/-- The response callback of the request at `w` was invoked with what was read of the body. -/
def Finishes (s : State) (w : ℕ) (t : State) : Prop :=
  ∃ r received, s.requests.find? w = some r ∧ received.body = r.response.body ∧
    t.serving = some (.finish w) ∧
    t.invocations = s.invocations ++ [⟨r.call, .response received⟩]

theorem invocations_finishRequest (s : State) (w : ℕ) :
    (s.finishRequest w).invocations = s.invocations ∨ Finishes s w (s.finishRequest w) := by
  unfold State.finishRequest
  cases hw : s.requests.find? w with
  | none => exact .inl rfl
  | some r => exact .inr ⟨r, r.response, hw, rfl, rfl, rfl⟩

theorem invocations_abortRequest (s : State) (w : ℕ) (reason : Bytes) :
    (s.abortRequest w reason).invocations = s.invocations ∨
      ∃ c m, (s.abortRequest w reason).invocations = s.invocations ++ [⟨c, .error m⟩] := by
  unfold State.abortRequest
  cases hw : s.requests.find? w with
  | none => exact .inl rfl
  | some r => exact .inr ⟨r.call, _, rfl⟩

theorem invocations_readHeaders (s : State) (w : ℕ) (head : Head) :
    (s.readHeaders w head).invocations = s.invocations := by
  unfold State.readHeaders
  split <;> rfl

theorem Finishes.of_readHeaders {head : Head} {t : State}
    (h : Finishes (s.readHeaders w head) w t) : Finishes s w t := by
  obtain ⟨r, received, hw, hbody, hserving, hinvocations⟩ := h
  obtain ⟨r', hw', hcall, hbody'⟩ := find?_readHeaders hw
  refine ⟨r', received, hw', hbody.trans hbody', hserving, ?_⟩
  rw [hinvocations, invocations_readHeaders, hcall]

theorem invocations_finish_readHeaders (s : State) (w : ℕ) (head : Head) :
    ((s.readHeaders w head).finishRequest w).invocations = s.invocations ∨
      Finishes s w ((s.readHeaders w head).finishRequest w) := by
  rcases invocations_finishRequest (s.readHeaders w head) w with h | h
  · exact .inl (h.trans (invocations_readHeaders s w head))
  · exact .inr h.of_readHeaders

/-- A callback tells the end of a response, a failure, or nothing. -/
theorem invocations_callbackHttp (s : State) (w : ℕ) (reason : Reason) :
    (s.callbackHttp w reason).invocations = s.invocations ∨
      (∃ c m, (s.callbackHttp w reason).invocations = s.invocations ++ [⟨c, .error m⟩]) ∨
      reason.isFailure = false ∧ chunksOf [reason] = [] ∧
        Finishes s w (s.callbackHttp w reason) := by
  cases reason with
  | established head =>
    have hread := invocations_readHeaders s w head
    simp only [State.callbackHttp]
    split
    · exact .inl hread
    · split_ifs
      · exact .inl hread
      · exact (invocations_finish_readHeaders s w head).imp_right fun h => .inr ⟨rfl, rfl, h⟩
  | read data =>
    simp only [State.callbackHttp]
    split <;> exact .inl rfl
  | completed => exact (invocations_finishRequest s w).imp_right fun h => .inr ⟨rfl, rfl, h⟩
  | closed => exact (invocations_abortRequest s w []).imp_right .inl
  | connectionError message head =>
    simp only [State.callbackHttp]
    split_ifs with hreal
    · refine (invocations_finish_readHeaders s w head).imp_right fun h => .inr ⟨?_, rfl, h⟩
      simp [Reason.isFailure, hreal]
    · exact (invocations_abortRequest s w message).imp_right .inl

theorem ServerResponse.length_pos (r : ServerResponse) (h : r.chunks ≠ []) :
    0 < r.chunks.flatten.length := by
  obtain ⟨chunk, hmem⟩ := List.exists_mem_of_ne_nil _ h
  rw [List.length_pos_iff]
  intro hflatten
  exact r.nonempty chunk hmem (List.flatten_eq_nil_iff.mp hflatten chunk hmem)

theorem ServerResponse.readContentLength_pos_iff (r : ServerResponse) (h : r.chunks ≠ []) :
    0 < Channel.readContentLength r.head.contentLength ↔ r.head.contentLength ≠ [] ∧
      r.head.contentLength.length < 511 ∧ numeral r.head.contentLength < 2 ^ 31 := by
  have hpos := r.length_pos h
  rcases r.framed with hnil | ⟨hne, hdigits, hlength⟩
  · rw [hnil]
    simp [Channel.readContentLength, Channel.readHeader]
  · rw [Channel.readContentLength_of_digits hdigits hne]
    split_ifs with hfits
    · exact iff_of_true (by omega) ⟨hne, hfits⟩
    · exact iff_of_false (by omega) fun hall => hfits hall.2

theorem eq_of_append_concat {α : Type*} {l xs : List α} {b : α} (hb : b ∉ l)
    (h : xs ++ [b] <+: l ++ [b]) : xs = l := by
  rcases List.prefix_concat_iff.mp h with h | h
  · exact List.append_cancel_right h
  · exact absurd (h.subset (by simp)) hb

theorem readHeaders_same (s : State) (w : ℕ) (head : Head) :
    (s.readHeaders w head).serving = s.serving ∧
      (s.readHeaders w head).closing = s.closing := by
  unfold State.readHeaders
  split <;> exact ⟨rfl, rfl⟩

theorem callbackHttp_established {head : Head}
    (h : 0 < Channel.readContentLength head.contentLength) :
    s.callbackHttp w (.established head) = s.readHeaders w head := by
  simp only [State.callbackHttp]
  cases hw : s.requests.find? w with
  | none => simp [State.readHeaders, hw]
  | some r =>
    simp [State.readHeaders, hw, RequestHandler.hasResponseBody,
      RequestHandler.readResponseHeaders, h]

variable {r : ServerResponse} {log : List Reason}

theorem established_prefix {head : Head}
    (h : log ++ [.established head] <+: r.delivery isRecognized) :
    log = [] ∧ head = r.head ∧ isRecognized r.head.code = true := by
  unfold ServerResponse.delivery at h
  split_ifs at h with hcode
  · cases log with
    | nil =>
      have hhead := (List.cons_prefix_cons.mp h).1
      exact ⟨rfl, Reason.established.inj hhead, hcode⟩
    | cons x xs =>
      have hmem := (List.cons_prefix_cons.mp h).2.subset (by simp : Reason.established head ∈ _)
      simp at hmem
  · have hmem := h.subset (by simp : Reason.established head ∈ _)
    simp at hmem

theorem completed_prefix (h : log ++ [.completed] <+: r.delivery isRecognized) :
    chunksOf log = r.chunks := by
  unfold ServerResponse.delivery at h
  split_ifs at h with hcode
  · rw [← List.cons_append] at h
    rw [eq_of_append_concat (by simp) h]
    exact chunksOf_map_read r.chunks
  · have hmem := h.subset (by simp : Reason.completed ∈ _)
    simp at hmem

theorem connectionError_prefix {message : Bytes} {head : Head}
    (h : log ++ [.connectionError message head] <+: r.delivery isRecognized) :
    log = [] ∧ isRecognized r.head.code = false := by
  unfold ServerResponse.delivery at h
  split_ifs at h with hcode
  · have hmem := h.subset (by simp : Reason.connectionError message head ∈ _)
    simp at hmem
  · have hlength := h.length_le
    simp only [List.length_append, List.length_singleton] at hlength
    exact ⟨List.length_eq_zero_iff.mp (by omega), by simpa using hcode⟩

/-- A callback that is no failure ends a response only where the chunks that were reported are
all there are. -/
theorem chunks_of_ends {t : Reception} {reason : Reason} {c : ℕ}
    (hlog : t.connection w = some (c, log))
    (htold : (response c).chunks = [] ∨ (response c).Told isRecognized)
    (hreason : reason.isFailure = false)
    (he : t.Enabled isRecognized response (.lws w reason)) (hends : t.Ends w reason) :
    chunksOf (log ++ [reason]) = (response c).chunks := by
  have hserving : t.client.serving = none := by
    have hidle := he.1
    simp only [State.Enabled, State.isIdle, Bool.and_eq_true, Option.isNone_iff_eq_none] at hidle
    exact hidle.1
  obtain hfailure | ⟨hopen, hdelivery⟩ := he.2
  · simp [hreason] at hfailure
  have hprefix := hdelivery c log hlog
  have hstays : ∀ {u : State}, u.serving = t.client.serving → u.closing = t.client.closing →
      ¬ (u.serving = some (.finish w) ∨ w ∈ u.closing) := by
    intro u hu hclosing
    rw [hu, hclosing, hserving]
    simp [hopen]
  cases reason with
  | established head =>
    obtain ⟨rfl, rfl, hcode⟩ := established_prefix hprefix
    by_contra hne
    have hpos := ((response c).readContentLength_pos_iff (Ne.symm hne)).mpr
      (htold.resolve_left (Ne.symm hne)).2
    obtain ⟨hsame, hsame'⟩ := readHeaders_same t.client w (response c).head
    rw [Reception.Ends, callbackHttp_established hpos] at hends
    exact hstays hsame hsame' hends
  | read data =>
    refine absurd hends (hstays ?_ ?_) <;> simp only [State.callbackHttp] <;> split <;> rfl
  | completed =>
    rw [chunksOf_append, completed_prefix hprefix]
    simp [chunksOf]
  | closed => cases hreason
  | connectionError message head =>
    obtain ⟨rfl, hcode⟩ := connectionError_prefix hprefix
    rcases htold with hnil | htold
    · simp [chunksOf, hnil]
    · simp [htold.1] at hcode

end Callbacks

namespace Reception
variable {isRecognized : ℕ → Bool} {response : ℕ → ServerResponse} {call : ℕ} {t : Reception}

variable (isRecognized response call) in
/-- A pending request has the chunks of its response that were reported, and the call has been
told all of its response. -/
structure Reading (t : Reception) : Prop where
  body : ∀ {w r}, t.client.requests.find? w = some r → ∃ log,
    t.connection w = some (r.call, log) ∧
      (log <+: (response r.call).delivery isRecognized → r.response.body = (chunksOf log).flatten)
  whole : ∀ i ∈ t.client.invocations, i.call = call → ∀ received,
    i.outcome = .response received → received.body = (response call).chunks.flatten

/-- Nothing but errors is told, and requests only leave the table. -/
theorem Reading.of_subset (h : Reading isRecognized response call t) {s : State}
    (hfind : ∀ {w r}, s.requests.find? w = some r → t.client.requests.find? w = some r)
    (hinvocations : ∀ i ∈ s.invocations, i ∈ t.client.invocations ∨ ∃ m, i.outcome = .error m) :
    Reading isRecognized response call { t with client := s } where
  body hw := h.body (hfind hw)
  whole i hi hcall received hreceived := by
    rcases hinvocations i hi with hi | ⟨m, hm⟩
    · exact h.whole i hi hcall received hreceived
    · rw [hm] at hreceived
      cases hreceived

theorem Reading.abortPending (h : Reading isRecognized response call t)
    (e : Option (ℕ × RequestHandler)) :
    Reading isRecognized response call { t with client := t.client.abortPending e } := by
  cases e with
  | none => exact h.of_subset (by simp [State.abortPending]) fun i hi => .inl hi
  | some e =>
    refine h.of_subset id fun i hi => ?_
    simp only [State.abortPending, State.invoke, List.mem_append, List.mem_singleton] at hi
    exact hi.imp_right fun hi => ⟨_, by rw [hi]⟩

theorem Reading.ret (h : Reading isRecognized response call t) :
    Reading isRecognized response call { t with client := t.client.ret } := by
  unfold State.ret
  have herase : ∀ w, Reading isRecognized response call { t with client :=
      { t.client with requests := t.client.requests.erase w, serving := none } } := by
    intro w
    refine h.of_subset (fun {v r} hv => ?_) fun i hi => .inl hi
    rw [OrderedMap.find?_erase] at hv
    split_ifs at hv
    exact hv
  split
  · exact h.of_subset id fun i hi => .inl hi
  · split
    · exact herase _
    · exact herase _
    · exact h.abortPending _
    · exact h

theorem Reading.request_none (h : Reading isRecognized response call t) :
    Reading isRecognized response call { t with client := t.client.startRequest none } := by
  refine h.of_subset id fun i hi => ?_
  simp only [State.startRequest, State.invoke, List.mem_append, List.mem_singleton] at hi
  exact hi.imp_right fun hi => ⟨_, by rw [hi]⟩

theorem Reading.request_some (h : Reading isRecognized response call t) {wsi : ℕ}
    (hfresh : t.client.requests.contains wsi = false) :
    Reading isRecognized response call (t.next (.request (some wsi))) where
  body {w r} hw := by
    have hnone : t.client.requests.find? wsi = none := by
      simpa [OrderedMap.contains] using hfresh
    simp only [Reception.next, State.next, State.startRequest, OrderedMap.find?_emplace, hnone,
      Option.none_or] at hw ⊢
    split_ifs at hw with hv
    · obtain rfl := Option.some.inj hw
      exact ⟨[], by rw [hv, Function.update_self], fun _ => rfl⟩
    · rw [Function.update_of_ne hv]
      exact h.body hw
  whole := h.whole

theorem Reading.lws (h : Reading isRecognized response call t)
    (htold : (response call).chunks = [] ∨ (response call).Told isRecognized)
    {wsi : ℕ} {reason : Reason} (he : t.Enabled isRecognized response (.lws wsi reason)) :
    Reading isRecognized response call (t.next (.lws wsi reason)) where
  body {w q} hw := by
    obtain ⟨q', hq', hcall, hbody⟩ := find?_callbackHttp hw
    obtain ⟨log, hlog, hread⟩ := h.body hq'
    rw [hcall, hbody]
    simp only [Reception.next]
    split_ifs with hv
    · subst hv
      refine ⟨log ++ [reason], by simp [hlog], fun hprefix => ?_⟩
      rw [hread ((List.prefix_append _ _).trans hprefix), chunksOf_append, List.flatten_append]
    · rw [Function.update_of_ne hv, List.append_nil]
      exact ⟨log, hlog, hread⟩
  whole i hi hcall received hreceived := by
    simp only [Reception.next, State.next] at hi
    rcases invocations_callbackHttp t.client wsi reason with
      hsame | ⟨c, m, hm⟩ | ⟨hreason, hchunk, r, received', hw, hbody, hserving, hinvocations⟩
    · exact h.whole i (hsame ▸ hi) hcall received hreceived
    · rw [hm, List.mem_append, List.mem_singleton] at hi
      rcases hi with hi | rfl
      · exact h.whole i hi hcall received hreceived
      · cases hreceived
    · rw [hinvocations, List.mem_append, List.mem_singleton] at hi
      rcases hi with hi | rfl
      · exact h.whole i hi hcall received hreceived
      · obtain rfl : r.call = call := hcall
        obtain rfl := Outcome.response.inj hreceived
        obtain ⟨log, hlog, hread⟩ := h.body hw
        obtain hfailure | ⟨-, hdelivery⟩ := he.2
        · simp [hreason] at hfailure
        have hprefix := hdelivery _ log hlog
        have hchunks := chunks_of_ends hlog htold hreason he (.inl hserving)
        rw [chunksOf_append, hchunk, List.append_nil] at hchunks
        rw [hbody, hread ((List.prefix_append _ _).trans hprefix), hchunks]

theorem Reading.next (h : Reading isRecognized response call t)
    (htold : (response call).chunks = [] ∨ (response call).Told isRecognized) {e : Event}
    (he : t.Enabled isRecognized response e) : Reading isRecognized response call (t.next e) := by
  cases e with
  | request wsi =>
    cases wsi with
    | none => exact h.request_none
    | some wsi => exact h.request_some he.1.2
  | lws wsi reason => exact h.lws htold he
  | ret => exact h.ret
  | destroy => exact h.abortPending _

theorem reading_run {es : List Event}
    (htold : (response call).chunks = [] ∨ (response call).Told isRecognized)
    (h : (machine isRecognized response).Run es t) : Reading isRecognized response call t :=
  h.invariant ⟨nofun, nofun⟩ fun _ _ hs he _ => hs.next htold he

variable (isRecognized response call) in
theorem exists_run_calls : ∃ es t, (machine isRecognized response).Run es t ∧
    t.client.calls = call ∧ t.client.serving = none ∧ t.client.starting = 0 ∧
    t.client.isDestroyed = false ∧ t.client.requests = ∅ := by
  induction call with
  | zero => exact ⟨[], {}, .nil, rfl, rfl, rfl, rfl, rfl⟩
  | succ n ih =>
    obtain ⟨es, t, hrun, hcalls, hserving, hstarting, halive, hempty⟩ := ih
    have hrequest : (machine isRecognized response).Enabled t (.request none) :=
      ⟨halive, trivial⟩
    have hret : (machine isRecognized response).Enabled (t.next (.request none)) .ret := by
      refine ⟨?_, trivial⟩
      simp [State.Enabled, Reception.next, State.next, State.startRequest, State.isIdle]
    refine ⟨_, _, (hrun.snoc hrequest trivial).snoc hret trivial, ?_⟩
    simp [machine, Reception.next, State.next, State.startRequest, State.ret, State.invoke,
      hcalls, hserving, hstarting, halive, hempty]

/-- The headers alone, with the status code that libwebsockets recognizes or not, end a
response whose body they do not tell. -/
theorem ends_of_not_told {r : ServerResponse} (hne : r.chunks ≠ []) (hnot : ¬ r.Told isRecognized)
    {wsi : ℕ} (hw : t.client.requests.contains wsi = true) : ∃ reason,
    reason.isFailure = false ∧ [reason] <+: r.delivery isRecognized ∧ chunksOf [reason] = [] ∧
      t.Ends wsi reason := by
  obtain ⟨q, hq⟩ := Option.isSome_iff_exists.mp hw
  unfold ServerResponse.delivery
  cases hcode : isRecognized r.head.code with
  | false =>
    refine ⟨.connectionError unrecognizedCode r.head, ?_, List.prefix_refl _, rfl, .inr ?_⟩
    · simp [Reason.isFailure, isNotARealConnectionError]
    · simp [State.callbackHttp, isNotARealConnectionError, State.close]
  | true =>
    have hzero : Channel.readContentLength r.head.contentLength = 0 := by
      by_contra hpos
      exact hnot ⟨hcode, (r.readContentLength_pos_iff hne).mp (Nat.pos_of_ne_zero hpos)⟩
    refine ⟨.established r.head, rfl, ?_, rfl, .inr ?_⟩
    · exact List.cons_prefix_cons.mpr ⟨rfl, List.nil_prefix⟩
    · simp [State.callbackHttp, State.readHeaders, hq, RequestHandler.hasResponseBody,
        RequestHandler.readResponseHeaders, hzero, State.close]

theorem not_whole_of_not_told (hne : (response call).chunks ≠ [])
    (hnot : ¬ (response call).Told isRecognized) : ¬ Whole isRecognized response call := by
  intro hwhole
  obtain ⟨es, t, hrun, hcalls, hserving, hstarting, halive, hempty⟩ :=
    exists_run_calls isRecognized response call
  have hrequest : (machine isRecognized response).Enabled t (.request (some 0)) := by
    refine ⟨⟨halive, ?_⟩, trivial⟩
    rw [hempty]
    rfl
  have hrun' := hrun.snoc hrequest trivial
  have hw : (t.next (.request (some 0))).client.requests.contains 0 = true := by
    simp [Reception.next, State.next, State.startRequest, OrderedMap.contains,
      OrderedMap.find?_emplace, hempty]
  have hconnection : (t.next (.request (some 0))).connection 0 = some (call, []) := by
    simp [Reception.next, hcalls]
  obtain ⟨reason, hreason, hprefix, hchunks, hends⟩ := ends_of_not_told hne hnot hw
  have henabled : Enabled isRecognized response (t.next (.request (some 0))) (.lws 0 reason) := by
    refine ⟨?_, .inr ⟨?_, ?_⟩⟩
    · simp [State.Enabled, State.isIdle, Reception.next, State.next, State.startRequest, hserving,
        hstarting]
    · simp [Reception.next, State.next, State.startRequest]
    · intro c log hlog
      obtain ⟨rfl, rfl⟩ := Prod.mk.inj (Option.some.inj (hconnection.symm.trans hlog))
      exact hprefix
  have hall := (hwhole _ _ hrun').2 0 reason [] hconnection hreason henabled hends
  exact hne (hall.symm.trans hchunks)

/-- A response is read to its end just when it has no body or its headers tell of the body. -/
theorem whole_iff (isRecognized : ℕ → Bool) (response : ℕ → ServerResponse) (call : ℕ) :
    Whole isRecognized response call ↔
      (response call).chunks = [] ∨ (response call).Told isRecognized := by
  constructor
  · intro h
    by_contra hnot
    obtain ⟨hne, hnot⟩ := not_or.mp hnot
    exact not_whole_of_not_told hne hnot h
  · intro htold es t hrun
    refine ⟨(reading_run htold hrun).whole, fun wsi reason log hlog hreason he hends => ?_⟩
    exact chunks_of_ends hlog htold hreason he hends

def chunkedResponse : ServerResponse where
  head := { code := Code.ok }
  chunks := [ascii "Hello World!"]
  nonempty := by decide +kernel
  framed := .inl rfl

theorem chunkedResponse_not_whole : ¬ Whole (fun _ => true) (fun _ => chunkedResponse) 0 :=
  not_whole_of_not_told (by simp [chunkedResponse]) fun h => h.2.1 rfl

end Reception
end Rockets.Http.Client
