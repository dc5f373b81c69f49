import Rockets.PyClientSubscribers

set_option autoImplicit false

/-!
# Results of requests in the Python client

What the future of a pending request is settled with by the response to it, and which
responses it tells as they are.
-/
namespace Rockets.Py

section Answers
variable (value : Json)

/-- What a response says: its result if it has one, else its error. -/
def answerOf : Outcome :=
  if value.count (ascii "result") then .result (value.at' (ascii "result"))
  else .exception (errorOf (value.at' (ascii "error")))

/-- The result is the null value, or it counts as true and is no object with a code. -/
def isPlainResult (result : Json) : Bool :=
  result.isNull || truthy result && !result.count (ascii "code")

def isPlain : Bool :=
  !value.count (ascii "result") || isPlainResult (value.at' (ascii "result"))

end Answers

def outcome (o : Observer PyException Delivery) : Option Outcome :=
  match o.received with
  | .settled _ outcome :: _ => some outcome
  | _ => none

section Taken
variable {value : Json} {id : Bytes}

theorem members_of_isResponse (h : isResponse value id = true) :
    value.count (ascii "result") = true ∧ value.at' (ascii "error") = .null ∨
      value.count (ascii "result") = false ∧ isErrorObject (value.at' (ascii "error")) = true := by
  simp only [isResponse, Bool.and_eq_true, Bool.or_eq_true] at h
  rcases h.2 with ⟨honly, hcount⟩ | ⟨honly, hobject⟩
  · exact .inl ⟨hcount, at_of_hasOnly honly (by decide)⟩
  · refine .inr ⟨?_, hobject⟩
    by_contra hcount
    rw [Bool.not_eq_false] at hcount
    cases value with
    | object members =>
      obtain ⟨v, hv⟩ := Option.isSome_iff_exists.mp hcount
      have hnone : Entries.find? (ascii "result") members = none := by
        refine Entries.find?_eq_none fun e he heq => ?_
        have hkey := List.contains_iff_mem.mp (List.all_eq_true.mp honly e he)
        rw [heq] at hkey
        exact absurd hkey (by decide)
      cases hnone.symm.trans hv
    | _ => cases honly

theorem onNext_of_isErrorObject (h : isErrorObject value = true) :
    onNext value = .ok (.exception (errorOf value)) := by
  simp only [isErrorObject, Bool.and_eq_true] at h
  obtain ⟨⟨honly, hcode⟩, hmessage⟩ := h
  have hcode : value.count (ascii "code") = true := by
    refine count_of_at_ne_null fun hnull => ?_
    rw [hnull] at hcode
    cases hcode
  have hmessage : value.count (ascii "message") = true := by
    refine count_of_at_ne_null fun hnull => ?_
    rw [hnull] at hmessage
    cases hmessage
  cases value with
  | object members =>
    simp only [onNext, hcode, if_true, requestError_of_hasOnly honly hcode hmessage]
    rfl
  | _ => cases hcode

/-- What has no code is told as it is, and what has one never is. -/
theorem onNext_eq_result_iff :
    onNext value = .ok (.result value) ↔ value.count (ascii "code") = false := by
  cases value with
  | object members =>
    simp only [onNext]
    split_ifs with hcode
    · refine iff_of_false (fun h => ?_) (by simp [hcode])
      cases hrequest : requestError members with
      | ok e => rw [hrequest] at h; cases h
      | error e => rw [hrequest] at h; cases h
    · exact iff_of_true rfl (Bool.not_eq_true _ ▸ hcode)
  | _ => exact iff_of_true rfl rfl

theorem onNext_taken_iff (h : isResponse value id = true) :
    onNext (taken value) = .ok (answerOf value) ↔ isPlain value = true := by
  rcases members_of_isResponse h with ⟨hcount, herror⟩ | ⟨hcount, hobject⟩
  · rw [answerOf, if_pos hcount, isPlain, hcount, Bool.not_true, Bool.false_or, taken, herror,
      isPlainResult]
    cases htruthy : truthy (value.at' (ascii "result")) with
    | true =>
      have hnotNull : (value.at' (ascii "result")).isNull = false := by
        cases hr : value.at' (ascii "result") with
        | null => rw [hr] at htruthy; cases htruthy
        | _ => rfl
      rw [if_pos rfl, onNext_eq_result_iff, hnotNull, Bool.false_or, Bool.true_and,
        Bool.not_eq_true']
    | false =>
      rw [if_neg Bool.false_ne_true, Bool.false_and, Bool.or_false]
      cases value.at' (ascii "result") with
      | null => exact iff_of_true rfl rfl
      | _ => exact iff_of_false nofun nofun
  · have htaken : taken value = value.at' (ascii "error") := by
      rw [taken, at_of_not_count hcount]
      rfl
    rw [answerOf, hcount, if_neg Bool.false_ne_true, htaken, onNext_of_isErrorObject hobject]
    exact iff_of_true rfl (by simp [isPlain, hcount])

end Taken

section Futures
variable {lib : Library} {value : Json} {id data : Bytes} {datas : List Bytes}

theorem outcome_of_isResponse (hlib : lib.Documented)
    (hpending : ((hub lib).observe (.request id) datas).status.isActive = true)
    (hloads : lib.loads data = .ok value) (hresponse : isResponse value id = true)
    (hrewritable : Rewritable lib value) :
    outcome ((hub lib).observe (.request id) (datas ++ [data])) =
      (onNext (taken value)).toOption := by
  have hanswers : answers value id = true := by
    simp only [isResponse, Bool.and_eq_true] at hresponse
    exact hresponse.1.1
  have hfilter : (Subscriber.request id).filter value = .ok true :=
    (responseFilter_eq value id).trans (congrArg _ hanswers)
  have hchain : (hub lib).chain (.request id) [] data =
      ((onNext (taken value)).map fun o => Delivery.settled value o).map some := by
    rw [chain_of_filter hloads hfilter]
    simp only [Subscriber.map, toResponse_of_isResponse hlib hresponse hrewritable, bind,
      Except.bind]
    cases onNext (taken value) <;> rfl
  rw [Hub.observe_append_singleton, Hub.observe_of_active rfl hpending, Hub.observeNext]
  cases htold : onNext (taken value) with
  | ok o =>
    rw [htold] at hchain
    rw [Observer.next_of_active rfl _ hchain]
    rfl
  | error e =>
    rw [htold] at hchain
    rw [Observer.next_of_error rfl hchain]
    rfl

/-- The future of a pending request tells what the response says just when the response has an
error, or a result that is the null value, or one that counts as true and has no code. -/
theorem outcome_eq_iff (hlib : lib.Documented)
    (hpending : ((hub lib).observe (.request id) datas).status.isActive = true)
    (hloads : lib.loads data = .ok value) (hresponse : isResponse value id = true)
    (hrewritable : Rewritable lib value) :
    outcome ((hub lib).observe (.request id) (datas ++ [data])) = some (answerOf value) ↔
      isPlain value = true := by
  rw [outcome_of_isResponse hlib hpending hloads hresponse hrewritable,
    ← onNext_taken_iff hresponse]
  cases onNext (taken value) with
  | ok o => exact ⟨fun h => congrArg _ (Option.some.inj h), fun h => congrArg _ (Except.ok.inj h)⟩
  | error e => exact iff_of_false nofun nofun

end Futures

section Samples

theorem rewritable_resultResponse : Rewritable sampleLibrary resultResponse := by
  refine ⟨resultText, ?_, ?_⟩
  · simp (disch := decide +kernel) only [sampleLibrary, if_neg]
  · simp (disch := decide +kernel) only [sampleLibrary, sampleLoads, if_neg, if_true]

/-- A pending request is told the number it was answered with. -/
theorem resultResponse_outcome :
    outcome ((hub sampleLibrary).observe (.request (ascii "a")) ([] ++ [resultText])) =
      some (answerOf resultResponse) := by
  refine (outcome_eq_iff sampleLibrary_documented rfl ?_ (by decide +kernel)
    rewritable_resultResponse).mpr (by decide +kernel)
  simp (disch := decide +kernel) only [sampleLibrary, sampleLoads, if_neg, if_true]

def zeroResponse : Json := .object [(ascii "id", .string (ascii "a")),
  (ascii "jsonrpc", .string (ascii "2.0")), (ascii "result", .numberUnsigned 0)]

def zeroText : Bytes := ascii "\x7b\"id\": \"a\", \"jsonrpc\": \"2.0\", \"result\": 0\x7d"

def sampleWith (loads : Bytes → Except PyException Json)
    (dumps : Json → Except PyException Bytes) : Library :=
  { sampleLibrary with
    loads
    dumps
    requestFromJson := fun text => loads text >>= sampleFromData }

theorem sampleWith_documented (loads : Bytes → Except PyException Json)
    (dumps : Json → Except PyException Bytes) : (sampleWith loads dumps).Documented where
  from_json text value h := by
    have h : loads text = .ok value := h
    simp only [sampleWith, h]
    rfl
  from_data := sampleLibrary_documented.from_data
  response := sampleLibrary_documented.response

def oneTextLibrary (text : Bytes) (value : Json) : Library :=
  sampleWith (fun t => if t = text then .ok value else .error .valueError) fun _ => .ok text

theorem oneTextLibrary_documented (text : Bytes) (value : Json) :
    (oneTextLibrary text value).Documented :=
  sampleWith_documented _ _

theorem loads_oneTextLibrary (text : Bytes) (value : Json) :
    (oneTextLibrary text value).loads text = .ok value := by
  simp only [oneTextLibrary, sampleWith, if_true]

/-- A request that is answered with the number zero is told nothing. -/
theorem zeroResponse_lost :
    ¬ ∀ (lib : Library) (id data : Bytes) (datas : List Bytes) (value : Json), lib.Documented →
      ((hub lib).observe (.request id) datas).status.isActive = true →
      lib.loads data = .ok value → isResponse value id = true → Rewritable lib value →
      outcome ((hub lib).observe (.request id) (datas ++ [data])) = some (answerOf value) := by
  intro hall
  have hlib := oneTextLibrary_documented zeroText zeroResponse
  have hloads := loads_oneTextLibrary zeroText zeroResponse
  have hresponse : isResponse zeroResponse (ascii "a") = true := by decide +kernel
  have hrewritable : Rewritable (oneTextLibrary zeroText zeroResponse) zeroResponse :=
    ⟨zeroText, rfl, hloads⟩
  have htold := hall _ (ascii "a") zeroText [] zeroResponse hlib rfl hloads hresponse hrewritable
  rw [outcome_of_isResponse hlib rfl hloads hresponse hrewritable] at htold
  cases htold

end Samples
end Rockets.Py
