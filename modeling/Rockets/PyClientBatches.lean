import Rockets.PyClientResults

set_option autoImplicit false

/-!
# Batches of the Python client

When the future of a batch is done, compared with when it is to be: at once if the batch has
no request, and otherwise with the first array that has responses to all its requests and to
nothing else.
-/
namespace Rockets.Py

inductive Item where
  | request (request_id : Bytes)
  | notification
  | other
  deriving DecidableEq

def Item.isJsonRpc20Request : Item → Bool
  | other => false
  | _ => true

def INVALID_REQUEST : RequestError :=
  ⟨.numberInteger (-32600), .string (ascii "Invalid Request"), .null⟩

def requestIds (requests : List Item) : List Bytes := requests.filterMap fun
  | .request request_id => some request_id
  | _ => none

def batch (requests : List Item) : Except RequestError Subscriber :=
  if requests.isEmpty || !requests.all Item.isJsonRpc20Request then .error INVALID_REQUEST
  else .ok (.batch (requestIds requests))

section Frames
variable (lib : Library) (ids : List Bytes) (data : Bytes)

/-- The frame is an array all of whose elements have ids of the batch. -/
def isAnswer : Bool := (lib.loads data).toOption.any fun value => answersBatch value ids

/-- The frame is an array with responses to all requests of the batch and to nothing else. -/
def isFullAnswer : Bool := (lib.loads data).toOption.any fun value => isBatchResponse value ids

/-- A frame is no JSON, or what it is can be written out and read again. -/
def Readable : Prop :=
  match lib.loads data with
  | .ok value => ∀ elements, value = .array elements → ∀ element ∈ elements,
      Rewritable lib element
  | .error e => e = .valueError

/-- What is to have become of a batch after some frames. -/
def Finishes (requests : List Item) (datas : List Bytes) (o : Observer PyException Delivery) :
    Prop :=
  if requestIds requests = [] then o.status = .completed
  else o = .expected (some 1) (wanted lib (.batch (requestIds requests))) datas

end Frames

section Chains
variable {lib : Library} {ids : List Bytes} {data : Bytes} {datas : List Bytes}

theorem toOption_any_iff {x : Except PyException Json} {p : Json → Bool} :
    x.toOption.any p = true ↔ ∃ value, x = .ok value ∧ p value = true := by
  cases x with
  | ok value => exact ⟨fun h => ⟨value, rfl, h⟩, fun ⟨_, heq, h⟩ => Except.ok.inj heq ▸ h⟩
  | error e => exact iff_of_false nofun nofun

theorem wanted_batch_eq_some {d : Delivery} (h : wanted lib (.batch ids) data = some d) :
    ∃ elements, lib.loads data = .ok (.array elements) ∧
      isBatchResponse (.array elements) ids = true ∧
      d = .responses (.array elements) (elements.map responseOf) := by
  obtain ⟨value, hloads, h⟩ := Option.bind_eq_some_iff.mp h
  have hloads : lib.loads data = .ok value := by
    cases hdata : lib.loads data with
    | ok v =>
      rw [hdata] at hloads
      exact congrArg _ (Option.some.inj hloads)
    | error e =>
      rw [hdata] at hloads
      cases hloads
  cases value with
  | array elements =>
    rw [Subscriber.wants] at h
    split_ifs at h with hfull
    exact ⟨elements, hloads, hfull, (Option.some.inj h).symm⟩
  | _ => cases h

theorem wanted_of_isFullAnswer (h : isFullAnswer lib ids data = true) :
    ∃ d, wanted lib (.batch ids) data = some d := by
  obtain ⟨value, hloads, hfull⟩ := toOption_any_iff.mp h
  rw [wanted, hloads]
  cases value with
  | array elements => exact ⟨_, if_pos hfull⟩
  | _ => cases hfull

theorem wanted_of_not_isAnswer (h : isAnswer lib ids data = false) :
    wanted lib (.batch ids) data = none := by
  cases hwanted : wanted lib (.batch ids) data with
  | none => rfl
  | some d =>
    obtain ⟨elements, hloads, hfull, -⟩ := wanted_batch_eq_some hwanted
    rw [isAnswer, hloads] at h
    have hanswers := answersBatch_of_isBatchResponse hfull
    exact absurd h (by simp [Except.toOption, hanswers])

theorem chain_of_not_isAnswer (hreadable : Readable lib data)
    (h : isAnswer lib ids data = false) (received : List Delivery) :
    (hub lib).chain (.batch ids) received data = .ok none := by
  unfold Readable at hreadable
  cases hloads : lib.loads data with
  | error e =>
    rw [hloads] at hreadable
    exact Operator.pipe_filter_map_of_none _ _
      (jsonStream_of_valueError (hloads.trans (congrArg _ hreadable)))
  | ok value =>
    have hanswers : answersBatch value ids = false := by
      simpa [isAnswer, hloads, Except.toOption] using h
    exact chain_of_handles hloads
      (.drop ((batchResponseFilter_eq value ids).trans (congrArg _ hanswers)))

theorem chain_of_isAnswer {value : Json} (hloads : lib.loads data = .ok value)
    (h : answersBatch value ids = true) (received : List Delivery) :
    (hub lib).chain (.batch ids) received data =
      (toResponses lib value).map fun rs => some (.responses value rs) := by
  have hfilter : (Subscriber.batch ids).filter value = .ok true :=
    (batchResponseFilter_eq value ids).trans (congrArg _ h)
  rw [chain_of_filter hloads hfilter]
  simp only [Subscriber.map, bind, Except.bind]
  cases toResponses lib value <;> rfl

theorem chain_of_isFullAnswer (hlib : lib.Documented) (hreadable : Readable lib data)
    (h : isFullAnswer lib ids data = true) (received : List Delivery) :
    (hub lib).chain (.batch ids) received data = .ok (wanted lib (.batch ids) data) := by
  obtain ⟨value, hloads, hfull⟩ := toOption_any_iff.mp h
  rw [Readable, hloads] at hreadable
  rw [wanted, hloads]
  exact chain_of_handles hloads (batch_handles hlib fun _ => ⟨hfull, hreadable⟩)

end Chains

section Futures
variable {lib : Library} {ids : List Bytes} {data : Bytes} {datas : List Bytes}

/-- Until there is an answer, nothing happens and nothing is to. -/
theorem observe_of_no_answer (hreadable : ∀ data ∈ datas, Readable lib data)
    (h : ∀ data ∈ datas, isAnswer lib ids data = false) :
    (hub lib).observe (.batch ids) datas = {} ∧
      (.expected (some 1) (wanted lib (.batch ids)) datas :
        Observer PyException Delivery) = {} := by
  constructor
  · induction datas using List.reverseRecOn with
    | nil => rfl
    | append_singleton datas data ih =>
      have hchain := chain_of_not_isAnswer (hreadable data (by simp)) (h data (by simp)) []
      rw [Hub.observe_append_singleton, ih (fun d hd => hreadable d (by simp [hd]))
        (fun d hd => h d (by simp [hd]))]
      exact Observer.next_of_active rfl none hchain
  · have hnone : datas.filterMap (wanted lib (.batch ids)) = [] :=
      List.filterMap_eq_nil_iff.mpr fun data hmem => wanted_of_not_isAnswer (h data hmem)
    simp [Observer.expected, hnone]

theorem observe_of_first {ds es : List Bytes} (hreadable : ∀ data ∈ ds, Readable lib data)
    (hbefore : ∀ data ∈ ds, isAnswer lib ids data = false)
    (h : isAnswer lib ids data = true) :
    (hub lib).observe (.batch ids) (ds ++ data :: es) =
      (hub lib).observeNext (.batch ids) {} data := by
  have hstart := (observe_of_no_answer hreadable hbefore).1
  have hdone : ((hub lib).observeNext (.batch ids) {} data).status.isActive = false := by
    obtain ⟨value, hloads, hanswers⟩ := toOption_any_iff.mp h
    have hchain := chain_of_isAnswer hloads hanswers []
    cases hresponses : toResponses lib value with
    | ok rs =>
      rw [hresponses] at hchain
      rw [Hub.observeNext, Observer.next_of_active rfl _ hchain]
      rfl
    | error e =>
      rw [hresponses] at hchain
      rw [Hub.observeNext, Observer.next_of_error rfl hchain]
      rfl
  rw [Hub.observe] at hstart ⊢
  rw [List.foldl_append, hstart, List.foldl_cons, Hub.foldl_observeNext_of_not_active hdone]

theorem expected_of_first {ds es : List Bytes} {d : Delivery}
    (hbefore : ∀ data ∈ ds, isAnswer lib ids data = false)
    (h : wanted lib (.batch ids) data = some d) :
    (.expected (some 1) (wanted lib (.batch ids)) (ds ++ data :: es) :
      Observer PyException Delivery) = ⟨[d], .completed⟩ := by
  have hnone : ds.filterMap (wanted lib (.batch ids)) = [] :=
    List.filterMap_eq_nil_iff.mpr fun data hmem => wanted_of_not_isAnswer (hbefore data hmem)
  simp [Observer.expected, List.filterMap_append, hnone, h]

theorem observeNext_ne_expected (h : isAnswer lib ids data = true)
    (hpart : isFullAnswer lib ids data = false) :
    (hub lib).observeNext (.batch ids) {} data ≠
      .expected (some 1) (wanted lib (.batch ids)) datas := by
  obtain ⟨value, hloads, hanswers⟩ := toOption_any_iff.mp h
  have hchain := chain_of_isAnswer hloads hanswers []
  intro heq
  cases hresponses : toResponses lib value with
  | ok rs =>
    rw [hresponses] at hchain
    rw [Hub.observeNext, Observer.next_of_active rfl _ hchain] at heq
    have hreceived := congrArg Observer.received heq
    have hmem : Delivery.responses value rs ∈
        (datas.filterMap (wanted lib (.batch ids))).take 1 := by
      rw [show (datas.filterMap (wanted lib (.batch ids))).take 1 = _ from hreceived.symm]
      exact List.mem_singleton_self _
    obtain ⟨data', -, hwanted⟩ := List.mem_filterMap.mp (List.mem_of_mem_take hmem)
    obtain ⟨elements, -, hfull, hdelivery⟩ := wanted_batch_eq_some hwanted
    cases hdelivery
    simp [isFullAnswer, hloads, Except.toOption, hfull] at hpart
  | error e =>
    rw [hresponses] at hchain
    rw [Hub.observeNext, Observer.next_of_error rfl hchain] at heq
    have hstatus := congrArg Observer.status heq
    simp only [Observer.expected] at hstatus
    split_ifs at hstatus

theorem observe_eq_expected_iff (hlib : lib.Documented)
    (hreadable : ∀ data ∈ datas, Readable lib data) :
    (hub lib).observe (.batch ids) datas = .expected (some 1) (wanted lib (.batch ids)) datas ↔
      ∀ data, datas.find? (isAnswer lib ids) = some data → isFullAnswer lib ids data = true := by
  cases hfind : datas.find? (isAnswer lib ids) with
  | none =>
    have hno : ∀ data ∈ datas, isAnswer lib ids data = false := fun data hmem =>
      Bool.not_eq_true _ ▸ List.find?_eq_none.mp hfind data hmem
    obtain ⟨hobserve, hexpected⟩ := observe_of_no_answer hreadable hno
    exact iff_of_true (hobserve.trans hexpected.symm) nofun
  | some data =>
    obtain ⟨hanswer, ds, es, rfl, hbefore⟩ := List.find?_eq_some_iff_append.mp hfind
    have hbefore : ∀ data ∈ ds, isAnswer lib ids data = false := fun data hmem => by
      simpa using hbefore data hmem
    rw [observe_of_first (fun d hd => hreadable d (by simp [hd])) hbefore hanswer]
    constructor
    · intro heq data' hdata'
      cases hdata'
      by_contra hpart
      exact observeNext_ne_expected hanswer (Bool.not_eq_true _ ▸ hpart) heq
    · intro hall
      have hfull := hall data rfl
      have hchain := chain_of_isFullAnswer hlib (hreadable data (by simp)) hfull []
      obtain ⟨d, hd⟩ := wanted_of_isFullAnswer hfull
      rw [expected_of_first hbefore hd, Hub.observeNext, Observer.next_of_active rfl _ hchain, hd]
      rfl

/-- A batch finishes when it is to, whatever part of the frames has come so far, just when it
has a request and the first array of responses to some of its requests answers them all. -/
theorem finishes_iff {requests : List Item} {x : Subscriber} (hlib : lib.Documented)
    (hbatch : batch requests = .ok x) (hreadable : ∀ data ∈ datas, Readable lib data) :
    (∀ datas', datas' <+: datas →
        Finishes lib requests datas' ((hub lib).observe x datas')) ↔
      requestIds requests ≠ [] ∧ ∀ data,
        datas.find? (isAnswer lib (requestIds requests)) = some data →
          isFullAnswer lib (requestIds requests) data = true := by
  obtain rfl : .batch (requestIds requests) = x := by
    unfold batch at hbatch
    split_ifs at hbatch
    exact Except.ok.inj hbatch
  constructor
  · intro h
    have hids : requestIds requests ≠ [] := by
      intro hids
      have hstart := h [] List.nil_prefix
      rw [Finishes, if_pos hids] at hstart
      cases hstart
    have hend := h datas List.prefix_rfl
    rw [Finishes, if_neg hids] at hend
    exact ⟨hids, (observe_eq_expected_iff hlib hreadable).mp hend⟩
  · rintro ⟨hids, hfirst⟩ datas' hpre
    rw [Finishes, if_neg hids]
    refine (observe_eq_expected_iff hlib fun d hd => hreadable d (hpre.mem hd)).mpr ?_
    exact fun data hdata => hfirst data (hpre.find?_eq_some hdata)

end Futures

section Samples

def callAndNotify : List Item := [.request (ascii "a"), .notification]

def batchText : Bytes := ascii "[\x7b\"id\": \"a\", \"jsonrpc\": \"2.0\", \"result\": 7\x7d]"

def batchLibrary : Library :=
  sampleWith (fun text => if text = batchText then .ok (.array [resultResponse])
    else sampleLoads text) fun value =>
    if value.isArray then .ok batchText else sampleLibrary.dumps value

theorem loads_batchText : batchLibrary.loads batchText = .ok (.array [resultResponse]) := by
  simp only [batchLibrary, sampleWith, if_true]

theorem rewritable_batchLibrary : Rewritable batchLibrary resultResponse := by
  refine ⟨resultText, ?_, ?_⟩
  · simp (disch := decide +kernel) only [batchLibrary, sampleWith, sampleLibrary, if_neg]
  · simp (disch := decide +kernel) only [batchLibrary, sampleWith, sampleLoads, if_neg, if_true]

/-- A batch of a request and a notification is done when the request is answered. -/
theorem callAndNotify_finishes : Finishes batchLibrary callAndNotify [batchText]
    ((hub batchLibrary).observe (.batch [ascii "a"]) [batchText]) := by
  have hreadable : ∀ data ∈ [batchText], Readable batchLibrary data := by
    intro data hdata
    cases List.mem_singleton.mp hdata
    rw [Readable, loads_batchText]
    intro elements helements element hmem
    cases helements
    cases List.mem_singleton.mp hmem
    exact rewritable_batchLibrary
  have hlib : batchLibrary.Documented := sampleWith_documented _ _
  refine (finishes_iff hlib rfl hreadable).mpr ⟨by decide, fun data hdata => ?_⟩ _ List.prefix_rfl
  cases List.mem_singleton.mp (List.mem_of_find?_eq_some hdata)
  rw [isFullAnswer, loads_batchText]
  decide +kernel

/-- The empty array finishes a batch with a request. -/
theorem emptyArray_finishes : ¬ ∀ (lib : Library) (requests : List Item) (x : Subscriber)
    (datas : List Bytes), lib.Documented → batch requests = .ok x →
      (∀ data ∈ datas, Readable lib data) → ∀ datas', datas' <+: datas →
        Finishes lib requests datas' ((hub lib).observe x datas') := by
  intro hall
  have hloads := loads_oneTextLibrary (ascii "[]") (.array [])
  have hreadable : ∀ data ∈ [ascii "[]"],
      Readable (oneTextLibrary (ascii "[]") (.array [])) data := by
    intro data hdata
    cases List.mem_singleton.mp hdata
    rw [Readable, hloads]
    intro elements helements element hmem
    cases helements
    cases hmem
  have hfinishes := hall _ callAndNotify (.batch [ascii "a"]) [ascii "[]"]
    (oneTextLibrary_documented _ _) rfl hreadable _ List.prefix_rfl
  rw [Finishes, if_neg (by decide)] at hfinishes
  have hanswer : isAnswer (oneTextLibrary (ascii "[]") (.array [])) [ascii "a"] (ascii "[]") =
      true := by
    rw [isAnswer, hloads]
    rfl
  have hpart : isFullAnswer (oneTextLibrary (ascii "[]") (.array [])) [ascii "a"]
      (ascii "[]") = false := by
    rw [isFullAnswer, hloads]
    rfl
  exact observeNext_ne_expected hanswer hpart hfinishes

end Samples
end Rockets.Py
