import Rockets.HttpAllowedMethods
import Rockets.HttpLifeCycle

set_option autoImplicit false

/-!
# What filtered clients learn

Two servers that differ in what is registered, and a request that the filter of both blocks.
The filter is asked before anything is looked up, but not for a preflight request.
-/
namespace Rockets.Http
open Connection ConnectionHandler

/-- The request with the whole body, as the filter is shown it. -/
def Incoming.complete (incoming : Incoming) (chunks : List Bytes) : Request :=
  incoming.request (if incoming.canHaveHttpBody then chunks.flatten else [])

def Incoming.getPathWithoutLeadingSlash (incoming : Incoming) : Bytes :=
  (incoming.request []).getPathWithoutLeadingSlash

namespace Exchange

/-- The chunks of the body that the events bring. -/
def bodyOf (es : List Event) : List Bytes :=
  es.filterMap fun
    | .body data => some data
    | _ => none

section Runs
variable {incoming : Incoming} {registry : Registry Future} {filter : Option Filter}
  {s : Exchange} {es : List Event}

theorem chunks_perform (s : Exchange) (action : Action Unit) :
    (s.perform action).chunks = s.chunks ∧ (s.perform action).isCompleted = s.isCompleted := by
  unfold perform
  split <;> exact ⟨rfl, rfl⟩

theorem chunks_write (s : Exchange) (io : Writing) :
    (s.write io).chunks = s.chunks ∧ (s.write io).isCompleted = s.isCompleted := by
  unfold write
  split <;> exact ⟨rfl, rfl⟩

theorem chunks_run (h : (machine incoming registry filter).Run es s) : s.chunks = bodyOf es := by
  induction h with
  | nil => exact (chunks_perform _ _).1
  | snoc _ _ _ ih =>
    rename_i e _ _ _
    simp only [bodyOf, List.filterMap_append] at ih ⊢
    cases e with
    | body data => exact (chunks_perform _ _).1.trans (by rw [ih]; rfl)
    | bodyCompletion => exact (chunks_perform _ _).1.trans (by rw [ih]; simp)
    | writeable io => exact (chunks_write _ _).1.trans (by rw [ih]; simp)
    | fulfil response => exact ih.trans (by simp)
    | abandon => exact ih.trans (by simp)
    | close => exact ih.trans (by simp)

end Runs

section Blocked
variable {incoming : Incoming} {r₁ r₂ : Registry Future} {f : Filter} {s : Exchange}

theorem generateResponse_blocked {registry : Registry Future} {request : Request}
    (h : f.filter request = true) :
    generateResponse registry (some f) request = .ok (.ready (f.getResponse request)) := by
  have hf : ((some f).filter fun f => f.filter request) = some f := by simp [h]
  simp only [generateResponse, hf]

/-- Where the filter blocks the request, the two servers set the same response. -/
theorem prepareResponse_blocked {c : Connection} (hset : c.isResponseSet = false)
    (h : f.filter c.request = true) : (prepareResponse r₁ (some f)).run c =
      (prepareResponse r₂ (some f)).run c := by
  rw [prepareResponse_unset r₁ _ hset, prepareResponse_unset r₂ _ hset, generateResponse_blocked h,
    generateResponse_blocked h]

theorem start_blocked (hcors : incoming.isCorsPreflightRequest = false)
    (h : incoming.canHaveHttpBody = false → f.filter (incoming.request []) = true) :
    start incoming r₁ (some f) = start incoming r₂ (some f) := by
  refine perform_congr ?_
  rw [handleNewRequest_other _ _ hcors, handleNewRequest_other _ _ hcors]
  split_ifs with hb
  · rfl
  · exact prepareResponse_blocked rfl (h (by simpa using hb))

theorem start_preflight (hcors : incoming.isCorsPreflightRequest = true)
    (h : ∀ m, r₁.contains m incoming.getPathWithoutLeadingSlash =
      r₂.contains m incoming.getPathWithoutLeadingSlash) :
    start incoming r₁ (some f) = start incoming r₂ (some f) := by
  have hallowed : r₁.getAllowedMethods incoming.getPathWithoutLeadingSlash =
      r₂.getAllowedMethods incoming.getPathWithoutLeadingSlash := by
    simp only [Registry.getAllowedMethods, h]
  refine perform_congr ?_
  rw [handleNewRequest_preflight hcors, handleNewRequest_preflight hcors,
    run_prepareCorsPreflightResponse r₁ rfl, run_prepareCorsPreflightResponse r₂ rfl]
  have hpath : (Connection.new incoming).request.getPathWithoutLeadingSlash =
      incoming.getPathWithoutLeadingSlash := rfl
  rw [hpath, makeCorsPreflightResponseHeaders, makeCorsPreflightResponseHeaders, hallowed]

theorem next_blocked (hi : Invariant incoming r₁ (some f) s) {e : Event} (he : s.Enabled e)
    (h : (s.next r₁ (some f) e).isReceived incoming = true →
      f.filter ((s.next r₁ (some f) e).shown incoming) = true) :
    s.next r₁ (some f) e = s.next r₂ (some f) e := by
  cases e with
  | bodyCompletion =>
    refine perform_congr ?_
    cases hset : s.connection.isResponseSet with
    | true =>
      have hno : incoming.canHaveHttpBody = false := by
        simpa [isReceived, he.2] using hi.received hset
      have hb := (canHaveHttpBody_eq hi).trans hno
      exact (prepareResponse_set r₁ _ hb hset).trans (prepareResponse_set r₂ _ hb hset).symm
    | false =>
      obtain ⟨-, hrequest, hfails⟩ := hi.unset hset
      obtain ⟨hchunks, hcompleted⟩ := chunks_perform { s with isCompleted := true }
        (prepareResponse r₁ (some f))
      have hblocked := h (by simp [next, isReceived, hcompleted])
      simp only [next, shown, hchunks] at hblocked
      cases hb : incoming.canHaveHttpBody with
      | true =>
        rw [if_pos hb, ← hrequest] at hblocked
        exact prepareResponse_blocked hset hblocked
      | false =>
        rw [if_neg (by simp [hb])] at hblocked
        have hfails := hfails (by simp [isReceived, hb])
        rw [shown, if_neg (by simp [hb]), generateResponse_blocked hblocked] at hfails
        rcases hfails with ⟨e, he⟩ | h
        · cases he
        · cases h
  | _ => rfl

/-- The request has got no further before a step than after it. -/
theorem received_of_next (registry : Registry Future) (filter : Option Filter) {e : Event}
    (he : s.Enabled e) (h : s.isReceived incoming = true) :
    (s.next registry filter e).isReceived incoming = true ∧
      (s.next registry filter e).shown incoming = s.shown incoming := by
  simp only [isReceived, shown] at h ⊢
  cases e with
  | body data =>
    obtain ⟨hchunks, hcompleted⟩ :=
      chunks_perform { s with chunks := s.chunks ++ [data] } (handleData data)
    have hno : incoming.canHaveHttpBody = false := by simpa [he.2] using h
    simp [next, hno]
  | bodyCompletion =>
    obtain ⟨hchunks, hcompleted⟩ := chunks_perform { s with isCompleted := true }
      (prepareResponse registry filter)
    simp [next, hchunks, hcompleted]
  | writeable io =>
    obtain ⟨hchunks, hcompleted⟩ := chunks_write s io
    simp only [next, hchunks, hcompleted]
    exact ⟨h, trivial⟩
  | fulfil response => exact ⟨h, rfl⟩
  | abandon => exact ⟨h, rfl⟩
  | close => exact ⟨h, rfl⟩

theorem runs_agree {es : List Event} {s₁ s₂ : Exchange}
    (hstart : start incoming r₁ (some f) = start incoming r₂ (some f))
    (h₁ : (machine incoming r₁ (some f)).Run es s₁)
    (h₂ : (machine incoming r₂ (some f)).Run es s₂)
    (h : s₁.isReceived incoming = true → f.filter (s₁.shown incoming) = true) : s₁ = s₂ := by
  refine (h₁.lockstep h₂ (R := fun s t => Invariant incoming r₁ (some f) s ∧
    ((s.isReceived incoming = true → f.filter (s.shown incoming) = true) → s = t))
    ⟨invariant_start, fun _ => hstart⟩ ?_).2 h
  rintro s t e ⟨hi, hsame⟩ he - - -
  refine ⟨invariant_next hi e he, fun hblocked => ?_⟩
  obtain rfl := hsame fun hreceived => by
    obtain ⟨hreceived', hshown⟩ :=
      received_of_next r₁ (some f) he hreceived
    rw [← hshown]
    exact hblocked hreceived'
  exact next_blocked hi he hblocked

end Blocked

section Preflight
variable {incoming : Incoming} {registry : Registry Future} {filter : Option Filter}

variable (incoming registry filter) in
theorem bodies_run {s : Exchange} (hclosed : s.isClosed = false) (hopen : s.isCompleted = false)
    (chunks : List Bytes) : ∃ t, (machine incoming registry filter).Path (fun _ _ => True) s
      (chunks.map .body) t ∧ t.isClosed = false ∧ t.isCompleted = false ∧
      ∃ request, t.connection = { s.connection with request } := by
  induction chunks generalizing s with
  | nil => exact ⟨s, .nil, hclosed, hopen, s.connection.request, rfl⟩
  | cons data chunks ih =>
    obtain ⟨t, hrun, hclosed', hopen', request, hsame⟩ :=
      ih (s := s.next registry filter (.body data)) hclosed hopen
    exact ⟨t, .cons ⟨hclosed, hopen⟩ trivial hrun, hclosed', hopen', request, hsame⟩

theorem sent_write {s : Exchange} (hfinal : s.connection.responseFinalized = true)
    (hheaders : s.connection.responseHeadersSent = false)
    (hbody : s.connection.responseBodySent = false) (hsent : s.connection.sent = []) :
    (s.write {}).connection.sent =
      [.headers s.connection.response s.connection.corsResponseHeaders] := by
  set c : Connection := { s.connection with writeRequested := false } with hc
  have hset : c.isResponseSet = true := by simp [isResponseSet, hc, hfinal]
  have hready : c.isResponseReady = true := by simp [isResponseReady, hc, hfinal]
  have hsame : c.withResponse = c := if_pos hfinal
  obtain ⟨n, outputs, again, hrun, hwritten⟩ :=
    run_writeResponseHeaders (c := c) hready hheaders hbody {}
  rw [← writeResponse_headers (c := c) hset hready hheaders] at hrun
  rw [write_of_run hrun, hsame]
  rw [hsame] at hwritten
  cases hwritten with
  | failed hio => simp at hio
  | written => simp [Connection.wrote, hc, hsent]

variable (registry filter) in
/-- The reply to a preflight request, whose body, if any, does not matter. -/
theorem preflight_sent (hcors : incoming.isCorsPreflightRequest = true) (chunks : List Bytes) :
    ∃ s, (machine incoming registry filter).Run (chunks.map .body ++ [.writeable {}]) s ∧
      s.connection.sent = [.headers {} (makeCorsPreflightResponseHeaders registry
        incoming.getPathWithoutLeadingSlash)] := by
  have hstart : start incoming registry filter = { connection := { Connection.new incoming with
      corsResponseHeaders := makeCorsPreflightResponseHeaders registry
        incoming.getPathWithoutLeadingSlash
      responseFinalized := true
      writeRequested := true } } := by
    unfold start perform
    rw [handleNewRequest_preflight hcors, run_prepareCorsPreflightResponse registry rfl]
    rfl
  obtain ⟨t, hrun, hclosed, -, request, hsame⟩ := bodies_run incoming registry filter
    (s := start incoming registry filter) (by rw [hstart]) (by rw [hstart]) chunks
  have hrequested : t.connection.writeRequested = true := by rw [hsame, hstart]
  have hwritten : (t.write {}).connection.sent = _ := sent_write (by rw [hsame, hstart])
    (by rw [hsame, hstart]; rfl) (by rw [hsame, hstart]; rfl) (by rw [hsame, hstart]; rfl)
  have henabled : (machine incoming registry filter).Enabled t (.writeable {}) :=
    ⟨hclosed, hrequested⟩
  refine ⟨t.write {}, hrun.snoc henabled trivial, ?_⟩
  rw [hwritten, hsame, hstart]
  rfl

end Preflight

/-- The replies of both servers are the same and no handler of either is invoked. -/
def LearnsNothing (incoming : Incoming) (f : Filter) (chunks : List Bytes)
    (r₁ r₂ : Registry Future) : Prop :=
  ∀ es s₁ s₂, (machine incoming r₁ (some f)).Run es s₁ →
    (machine incoming r₂ (some f)).Run es s₂ → bodyOf es = chunks →
    s₁.connection.sent = s₂.connection.sent ∧ s₁.connection.called = [] ∧ s₂.connection.called = []

section Main
variable {incoming : Incoming} {f : Filter} {chunks : List Bytes} {r₁ r₂ : Registry Future}

theorem called_blocked {registry : Registry Future} {es : List Event} {s : Exchange}
    (hblocked : f.filter (incoming.complete chunks) = true)
    (h : (machine incoming registry (some f)).Run es s) (hbody : bodyOf es = chunks) :
    s.connection.called = [] := by
  have hshown : s.shown incoming = incoming.complete chunks := by
    rw [shown, chunks_run h, hbody, Incoming.complete]
  rw [(invariant_run h).called, calls, hshown, generateResponse_blocked hblocked]
  split_ifs <;> rfl

theorem learnsNothing_of_start (hblocked : f.filter (incoming.complete chunks) = true)
    (hstart : start incoming r₁ (some f) = start incoming r₂ (some f)) :
    LearnsNothing incoming f chunks r₁ r₂ := by
  intro es s₁ s₂ h₁ h₂ hbody
  have hshown : s₁.shown incoming = incoming.complete chunks := by
    rw [shown, chunks_run h₁, hbody, Incoming.complete]
  have hsame := runs_agree hstart h₁ h₂ fun _ => by rw [hshown]; exact hblocked
  exact ⟨by rw [hsame], called_blocked hblocked h₁ hbody, called_blocked hblocked h₂ hbody⟩

theorem contains_of_learnsNothing (hcors : incoming.isCorsPreflightRequest = true)
    (h : LearnsNothing incoming f chunks r₁ r₂) (m : Method) :
    r₁.contains m incoming.getPathWithoutLeadingSlash =
      r₂.contains m incoming.getPathWithoutLeadingSlash := by
  obtain ⟨s₁, hrun₁, hsent₁⟩ :=
    preflight_sent r₁ (some f) hcors chunks
  obtain ⟨s₂, hrun₂, hsent₂⟩ :=
    preflight_sent r₂ (some f) hcors chunks
  have hbody : bodyOf (chunks.map .body ++ [.writeable {}]) = chunks := by
    simp [bodyOf, List.filterMap_map]
  have hsame := (h _ _ _ hrun₁ hrun₂ hbody).1
  rw [hsent₁, hsent₂] at hsame
  have hallowed : r₁.getAllowedMethods incoming.getPathWithoutLeadingSlash =
      r₂.getAllowedMethods incoming.getPathWithoutLeadingSlash := by
    simpa [makeCorsPreflightResponseHeaders] using hsame
  rw [Bool.eq_iff_iff, ← Registry.advertises_iff, ← Registry.advertises_iff,
    Registry.Advertises, Registry.Advertises, hallowed]

/-- A client whose request is blocked learns nothing of what is registered if and only if the
request is not a preflight request or what it is told is the same. -/
theorem learnsNothing_iff (hblocked : f.filter (incoming.complete chunks) = true) :
    LearnsNothing incoming f chunks r₁ r₂ ↔ incoming.isCorsPreflightRequest = false ∨
      ∀ m, r₁.contains m incoming.getPathWithoutLeadingSlash =
        r₂.contains m incoming.getPathWithoutLeadingSlash := by
  constructor
  · intro h
    cases hcors : incoming.isCorsPreflightRequest with
    | false => exact .inl rfl
    | true => exact .inr (contains_of_learnsNothing hcors h)
  · intro h
    apply learnsNothing_of_start hblocked
    cases hcors : incoming.isCorsPreflightRequest with
    | false =>
      refine start_blocked hcors fun hb => ?_
      simpa [Incoming.complete, hb] using hblocked
    | true => exact start_preflight hcors (h.resolve_left (by simp [hcors]))

end Main

section Sample

def blockAll : Filter where
  filter _ := true
  getResponse _ := { code := 403 }

def preflight : Incoming where
  method := some .options
  path := ascii "/objects/"
  corsHeaders := { origin := ascii "a.com", accessControlRequestHeaders := ascii "Content-Type" }

theorem learnsNothing_upload :
    LearnsNothing upload blockAll [] uploadRegistry objectsRegistry ↔
      upload.isCorsPreflightRequest = false ∨
        ∀ m, uploadRegistry.contains m upload.getPathWithoutLeadingSlash =
          objectsRegistry.contains m upload.getPathWithoutLeadingSlash :=
  learnsNothing_iff rfl

/-- The methods of `objects/` are told to a client that the filter blocks. -/
theorem preflight_learns : ¬ ∀ (incoming : Incoming) (f : Filter) (chunks : List Bytes)
    (r₁ r₂ : Registry Future), f.filter (incoming.complete chunks) = true →
      LearnsNothing incoming f chunks r₁ r₂ := by
  intro hall
  have h := contains_of_learnsNothing (by decide)
    (hall preflight blockAll [] objectsRegistry {} rfl) .get
  exact absurd h (by decide)

end Sample
end Exchange
end Rockets.Http
