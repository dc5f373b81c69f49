import Rockets.JsClientProgress
import Rockets.PyClient

set_option autoImplicit false

/-!
# The aggregates of progress in both clients

The JavaScript client keeps a list of notifications, the Python client a dictionary of amounts.
With amounts that are rational numbers they compute the same means.
-/
namespace Rockets
open Latest

/-! ### The Python client -/

namespace Py

/-- `reduce` with addition, without a value to start with. -/
def reduceAdd : List ℚ → Except PyException ℚ
  | [] => .error .typeError
  | x :: values => .ok (values.foldl (fun x value => x + value) x)

/-- `_to_progress` of batches, for one amount more in the dictionary. No progress is let
through to it where there are no request ids. -/
def toBatchAmount (request_ids : List Bytes) (items : List (Bytes × ℚ)) (progress : Bytes × ℚ) :
    Except PyException (List (Bytes × ℚ) × ℚ) := do
  let items := put progress.1 progress.2 items
  let total ← reduceAdd (items.map Prod.snd)
  return (items, total / request_ids.length)

def batchAmounts (request_ids : List Bytes) :
    List (Bytes × ℚ) → List (Bytes × ℚ) → Except PyException (List ℚ)
  | _, [] => .ok []
  | items, progress :: ps => do
    let r ← toBatchAmount request_ids items progress
    return r.2 :: (← batchAmounts request_ids r.1 ps)

theorem reduceAdd_eq {values : List ℚ} (h : values ≠ []) : reduceAdd values = .ok values.sum := by
  cases values with
  | nil => exact absurd rfl h
  | cons x values =>
    rw [reduceAdd, List.sum_eq_foldl, List.foldl_cons, zero_add]

theorem put_ne_nil (progress : Bytes × ℚ) (items : List (Bytes × ℚ)) :
    (put progress.1 progress.2 items).map Prod.snd ≠ [] := by
  cases items with
  | nil => simp [put]
  | cons item items =>
    rw [put]
    split_ifs <;> simp

theorem toBatchAmount_eq (request_ids : List Bytes) (items : List (Bytes × ℚ))
    (progress : Bytes × ℚ) : toBatchAmount request_ids items progress =
      .ok (put progress.1 progress.2 items,
        ((put progress.1 progress.2 items).map Prod.snd).sum / request_ids.length) := by
  rw [toBatchAmount, reduceAdd_eq (put_ne_nil progress items)]
  rfl

def readItems (rat : Json → ℚ) (items : Items) : List (Bytes × ℚ) :=
  items.map fun item => (item.1, rat item.2)

theorem readItems_setItem (rat : Json → ℚ) (id : Bytes) (amount : Json) (items : Items) :
    readItems rat (setItem id amount items) = put id (rat amount) (readItems rat items) := by
  induction items with
  | nil => rfl
  | cons item items ih =>
    simp only [readItems, List.map_cons, setItem, put] at ih ⊢
    split_ifs with hid
    · rfl
    · rw [List.map_cons, ih]

/-- Where the arithmetic is that of rational numbers, the mapping of the stream computes what
the one on rational numbers does. -/
theorem toBatchProgress_reads {lib : Library} {rat : Json → ℚ} {request_ids : List Bytes}
    {received : List Delivery} {value : Json} {d : Delivery}
    (haverage : ∀ amounts total, lib.average amounts request_ids.length = .ok total →
      rat total = (amounts.map rat).sum / request_ids.length)
    (h : toBatchProgress lib request_ids received value = .ok d) :
    ∃ request id amount progress items, lib.requestFromData value = .ok request ∧
      subscript request.params (ascii "id") = .ok (.string id) ∧
      subscript request.params (ascii "amount") = .ok amount ∧ d = .progress progress items ∧
      toBatchAmount request_ids (readItems rat (Py.items received)) (id, rat amount) =
        .ok (readItems rat items, rat progress.amount) := by
  unfold toBatchProgress at h
  cases hrequest : lib.requestFromData value with
  | error e => rw [hrequest] at h; cases h
  | ok request =>
    rw [hrequest] at h
    simp only [bind, Except.bind] at h
    cases hamount : subscript request.params (ascii "amount") with
    | error e => rw [hamount] at h; cases h
    | ok amount =>
      rw [hamount] at h
      cases hid : subscript request.params (ascii "id") with
      | error e => rw [hid] at h; cases h
      | ok j =>
        rw [hid] at h
        cases j with
        | string id =>
          cases htotal : lib.average ((setItem id amount (Py.items received)).map Prod.snd)
              request_ids.length with
          | error e => simp only [htotal] at h; cases h
          | ok total =>
            simp only [htotal] at h
            cases h
            refine ⟨request, id, amount, _, _, rfl, hid, hamount, rfl, ?_⟩
            rw [toBatchAmount_eq, ← readItems_setItem, haverage _ _ htotal, readItems,
              List.map_map, List.map_map]
            rfl
        | _ => cases h

end Py

/-! ### The JavaScript client -/

namespace Js

def aggregates (requests : List Bytes) :
    List ProgressNotification → List ProgressNotification → List ℚ
  | _, [] => []
  | items, progress :: ps =>
    let r := createProgressAggregate requests items progress
    r.2 :: aggregates requests r.1 ps

end Js

/-! ### Both -/

section Agreement
variable {ids : List Bytes} {items ps qs : List (Bytes × ℚ)}

theorem batchAmounts_eq_aggregates (ids : List Bytes) (items ps : List (Bytes × ℚ)) :
    Py.batchAmounts ids items ps = .ok (Js.aggregates ids items ps) := by
  induction ps generalizing items with
  | nil => rfl
  | cons p ps ih =>
    simp only [Py.batchAmounts, Py.toBatchAmount_eq, Js.aggregates,
      Js.createProgressAggregate_eq, bind, Except.bind, ih]
    rfl

theorem tail_inits_cons (p : Bytes × ℚ) (ps : List (Bytes × ℚ)) :
    (p :: ps).inits.tail = [p] :: ps.inits.tail.map fun qs => p :: qs := by
  cases ps <;> simp

theorem aggregates_eq_means (hids : ids.Nodup) (h : Latest.Represents items qs)
    (hmem : ∀ p ∈ qs ++ ps, p.1 ∈ ids) : Js.aggregates ids items ps =
      ps.inits.tail.map fun rs => mean ids (qs ++ rs) := by
  induction ps generalizing items qs with
  | nil => rfl
  | cons p ps ih =>
    have hsofar : ∀ q ∈ qs ++ [p], q.1 ∈ ids := fun q hq => hmem q (by
      simp only [List.mem_append, List.mem_cons] at hq ⊢
      grind)
    obtain ⟨hitems, hmean⟩ := Js.createProgressAggregate_table h hsofar
    have hrest := ih hitems (by simpa using hmem)
    rw [Js.aggregates, hmean, tableMean_of_nodup hids, hrest, tail_inits_cons, List.map_cons,
      List.map_map]
    simp [Function.comp_def]

/-- The aggregates of both clients are the means of the latest amounts; with amounts from zero
to one they stay there, and are one just when all requests have got to one. -/
theorem aggregates_agree (hids : ids.Nodup) (hne : ids ≠ []) (hmem : ∀ p ∈ ps, p.1 ∈ ids) :
    Py.batchAmounts ids [] ps = .ok (Js.aggregates ids [] ps) ∧
      Js.aggregates ids [] ps = ps.inits.tail.map (mean ids) ∧
      ∀ qs, qs <+: ps → (∀ p ∈ qs, 0 ≤ p.2 ∧ p.2 ≤ 1) →
        (0 ≤ mean ids qs ∧ mean ids qs ≤ 1) ∧
          (mean ids qs = 1 ↔ ∀ id ∈ ids, latest qs id = 1) := by
  refine ⟨batchAmounts_eq_aggregates ids [] ps, ?_, fun qs _ hamounts => ?_⟩
  · have hmeans := aggregates_eq_means hids .nil (List.nil_append ps ▸ hmem)
    simpa using hmeans
  · have hnonneg : ∀ p ∈ qs, 0 ≤ p.2 := fun p hp => (hamounts p hp).1
    have hle : ∀ p ∈ qs, p.2 ≤ 1 := fun p hp => (hamounts p hp).2
    exact ⟨⟨mean_nonneg hnonneg, mean_le_one hle⟩, mean_eq_one_iff hne hle⟩

def halfAndWhole : List (Bytes × ℚ) := [(ascii "a", 1 / 2), (ascii "b", 1), (ascii "a", 1)]

theorem halfAndWhole_agree : Py.batchAmounts [ascii "a", ascii "b"] [] halfAndWhole =
      .ok (Js.aggregates [ascii "a", ascii "b"] [] halfAndWhole) ∧
    (mean [ascii "a", ascii "b"] halfAndWhole = 1 ↔
      ∀ id ∈ [ascii "a", ascii "b"], latest halfAndWhole id = 1) := by
  have hmem : ∀ p ∈ halfAndWhole, p.1 ∈ [ascii "a", ascii "b"] := by decide +kernel
  have hagree := aggregates_agree (by decide) (by decide) hmem
  exact ⟨hagree.1, (hagree.2.2 _ List.prefix_rfl (by decide +kernel)).2⟩

/-- One amount of two makes up for one that is missing. -/
theorem double_isOne : ¬ ∀ (ids : List Bytes) (ps : List (Bytes × ℚ)), ids.Nodup → ids ≠ [] →
    (∀ p ∈ ps, p.1 ∈ ids) → ∀ amount, (Js.aggregates ids [] ps).getLast? = some amount →
      (amount = 1 ↔ ∀ id ∈ ids, latest ps id = 1) := by
  intro hall
  have hone := hall [ascii "a", ascii "b"] [(ascii "a", 2)] (by decide) (by decide)
    (by decide +kernel) 1 (by decide +kernel)
  revert hone
  decide +kernel

end Agreement
end Rockets
