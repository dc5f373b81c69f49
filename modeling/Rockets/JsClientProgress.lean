import Rockets.Bytes
import Rockets.LatestValues

set_option autoImplicit false

/-!
# Progress of batches in the JavaScript client

The aggregate of the progress of the requests of a batch, and what of it the subscribers to the
progress of the batch are told. Amounts are rational numbers.
-/
namespace Rockets.Js
open Latest

/-- The id and the amount of a notification of progress; batches do not read the operation. -/
abbrev ProgressNotification := Bytes × ℚ

def createProgressAggregate (requests : List Bytes) (items : List ProgressNotification)
    (progress : ProgressNotification) : List ProgressNotification × ℚ :=
  let items := match items.findIdx? fun p => p.1 = progress.1 with
    | some index => items.set index progress
    | none => items ++ [progress]
  let total := (items.map Prod.snd).foldl (fun acc amount => acc + amount) 0
  (items, total / requests.length)

/-- The progress of one batch: the items of the aggregate, what `distinct` has let through, and
what the subject replays to a new subscriber. -/
structure BatchProgress where
  items : List ProgressNotification := []
  distinct : List ℚ := []
  progress : Option ℚ := none
  subscribed : Bool := true

namespace BatchProgress

/-- An amount is dropped if there was the same amount before. -/
def onAmount (s : BatchProgress) (amount : ℚ) : BatchProgress :=
  if amount ∈ s.distinct then s
  else
    { s with
      distinct := s.distinct ++ [amount]
      progress := some amount
      subscribed := s.subscribed && amount < 1 }

def onProgress (requests : List Bytes) (progress : ProgressNotification) (s : BatchProgress) :
    BatchProgress :=
  let aggregate := createProgressAggregate requests s.items progress
  onAmount { s with items := aggregate.1 } aggregate.2

def onStream (requests : List Bytes) (progress : ProgressNotification) (s : BatchProgress)
    (id : Bytes) : BatchProgress :=
  if s.subscribed && progress.1 = id then onProgress requests progress s else s

def next (requests : List Bytes) (s : BatchProgress) (progress : ProgressNotification) :
    BatchProgress :=
  requests.foldl (onStream requests progress) s

def run (requests : List Bytes) (ps : List ProgressNotification) : BatchProgress :=
  ps.foldl (next requests) {}

end BatchProgress

section Aggregates
variable {requests : List Bytes} {items : List ProgressNotification}
  {progress : ProgressNotification}

theorem set_findIdx?_eq_put (items : List ProgressNotification) (progress : ProgressNotification) :
    (match items.findIdx? fun p => p.1 = progress.1 with
      | some index => items.set index progress
      | none => items ++ [progress]) = put progress.1 progress.2 items := by
  induction items with
  | nil => rfl
  | cons p items ih =>
    rw [List.findIdx?_cons]
    by_cases hp : p.1 = progress.1
    · simp [put, hp]
    · simp only [put, if_neg hp, decide_eq_true_eq, ← ih]
      cases items.findIdx? fun p => decide (p.1 = progress.1) <;> rfl

theorem createProgressAggregate_eq : createProgressAggregate requests items progress =
    (put progress.1 progress.2 items,
      ((put progress.1 progress.2 items).map Prod.snd).sum / requests.length) := by
  simp only [createProgressAggregate, set_findIdx?_eq_put, List.sum_eq_foldl]

theorem createProgressAggregate_table {ps : List ProgressNotification} (h : Represents items ps)
    (hmem : ∀ p ∈ ps ++ [progress], p.1 ∈ requests) :
    Represents (createProgressAggregate requests items progress).1 (ps ++ [progress]) ∧
      (createProgressAggregate requests items progress).2 =
        tableMean requests (ps ++ [progress]) := by
  have hput := h.put progress
  rw [createProgressAggregate_eq]
  refine ⟨hput, ?_⟩
  rw [hput.sum (List.nodup_dedup requests) fun p hp => List.mem_dedup.mpr (hmem p hp), tableMean]

end Aggregates

namespace BatchProgress
variable {requests : List Bytes} {ps : List ProgressNotification} {s : BatchProgress}
  {p : ProgressNotification}

theorem onAmount_of_mem {amount : ℚ} (h : amount ∈ s.distinct) : s.onAmount amount = s := by
  rw [onAmount, if_pos h]

theorem mem_distinct_onAmount (s : BatchProgress) (amount : ℚ) :
    amount ∈ (s.onAmount amount).distinct := by
  unfold onAmount
  split_ifs with hold
  · exact hold
  · simp

theorem items_onAmount (s : BatchProgress) (amount : ℚ) : (s.onAmount amount).items = s.items := by
  unfold onAmount
  split_ifs <;> rfl

theorem onProgress_onProgress (requests : List Bytes) (p : ProgressNotification)
    (s : BatchProgress) :
    onProgress requests p (onProgress requests p s) = onProgress requests p s := by
  have hitems : (onProgress requests p s).items = put p.1 p.2 s.items := by
    rw [onProgress, items_onAmount, createProgressAggregate_eq]
  have hsame : createProgressAggregate requests (onProgress requests p s).items p =
      createProgressAggregate requests s.items p := by
    rw [hitems, createProgressAggregate_eq, put_put, ← createProgressAggregate_eq]
  have hold : (createProgressAggregate requests s.items p).2 ∈
      (onProgress requests p s).distinct := mem_distinct_onAmount _ _
  have hkept : { onProgress requests p s with
      items := (createProgressAggregate requests s.items p).1 } = onProgress requests p s := by
    rw [createProgressAggregate_eq, ← hitems]
  rw [onProgress, hsame, hkept]
  exact onAmount_of_mem hold

theorem onStream_onProgress (requests : List Bytes) (p : ProgressNotification) (s : BatchProgress)
    (id : Bytes) : onStream requests p (onProgress requests p s) id = onProgress requests p s := by
  unfold onStream
  split_ifs
  · exact onProgress_onProgress requests p s
  · rfl

theorem foldl_onStream {ids : List Bytes} (hmem : p.1 ∈ ids) (hsubscribed : s.subscribed = true) :
    ids.foldl (onStream requests p) s = onProgress requests p s := by
  have hdone (ids : List Bytes) :
      ids.foldl (onStream requests p) (onProgress requests p s) = onProgress requests p s := by
    induction ids with
    | nil => rfl
    | cons id ids ih => rw [List.foldl_cons, onStream_onProgress, ih]
  induction ids with
  | nil => cases hmem
  | cons id ids ih =>
    rw [List.foldl_cons]
    by_cases hid : p.1 = id
    · have hown : onStream requests p s id = onProgress requests p s := by
        simp [onStream, hsubscribed, hid]
      rw [hown, hdone]
    · have hother : onStream requests p s id = s := by simp [onStream, hid]
      rw [hother, ih ((List.mem_cons.mp hmem).resolve_left hid)]

/-- What the state knows of the notifications: their latest amounts, and all amounts there were. -/
structure Tracks (requests : List Bytes) (ps : List ProgressNotification) (s : BatchProgress) :
    Prop where
  items : Represents s.items ps
  distinct : ∀ m, m ∈ s.distinct ↔ ∃ qs, qs <+: ps ∧ qs ≠ [] ∧ tableMean requests qs = m
  subscribed : s.subscribed = true ↔ ∀ m ∈ s.distinct, m < 1

theorem Tracks.isSubscribed (h : Tracks requests ps s)
    (hbelow : ∀ qs, qs <+: ps → tableMean requests qs < 1) : s.subscribed = true := by
  refine h.subscribed.mpr fun m hm => ?_
  obtain ⟨qs, hqs, -, rfl⟩ := (h.distinct m).mp hm
  exact hbelow qs hqs

theorem next_eq (h : Tracks requests ps s) (hmem : ∀ q ∈ ps ++ [p], q.1 ∈ requests)
    (hsubscribed : s.subscribed = true) : next requests s p =
      onAmount { s with items := (createProgressAggregate requests s.items p).1 }
        (tableMean requests (ps ++ [p])) := by
  rw [next, foldl_onStream (hmem p (by simp)) hsubscribed, onProgress,
    (createProgressAggregate_table h.items hmem).2]

theorem progress_next (h : Tracks requests ps s) (hmem : ∀ q ∈ ps ++ [p], q.1 ∈ requests)
    (hsubscribed : s.subscribed = true) : (next requests s p).progress =
      if tableMean requests (ps ++ [p]) ∈ s.distinct then s.progress
      else some (tableMean requests (ps ++ [p])) := by
  rw [next_eq h hmem hsubscribed, onAmount]
  split_ifs <;> rfl

theorem Tracks.next (h : Tracks requests ps s) (hmem : ∀ q ∈ ps ++ [p], q.1 ∈ requests)
    (hsubscribed : s.subscribed = true) :
    Tracks requests (ps ++ [p]) (next requests s p) := by
  have hitems := (createProgressAggregate_table h.items hmem).1
  have hpre (m : ℚ) : (∃ qs, qs <+: ps ++ [p] ∧ qs ≠ [] ∧ tableMean requests qs = m) ↔
      m ∈ s.distinct ∨ m = tableMean requests (ps ++ [p]) := by
    rw [h.distinct m]
    constructor
    · rintro ⟨qs, hqs, hne, rfl⟩
      rcases List.prefix_concat_iff.mp hqs with rfl | hqs
      · exact .inr rfl
      · exact .inl ⟨qs, hqs, hne, rfl⟩
    · rintro (⟨qs, hqs, hne, rfl⟩ | rfl)
      · exact ⟨qs, hqs.trans (List.prefix_append _ _), hne, rfl⟩
      · exact ⟨ps ++ [p], List.prefix_rfl, by simp, rfl⟩
  rw [next_eq h hmem hsubscribed, onAmount]
  split_ifs with hold
  · refine ⟨hitems, fun m => ?_, h.subscribed⟩
    rw [hpre m]
    exact ⟨.inl, fun hm => hm.elim id fun heq => heq ▸ hold⟩
  · refine ⟨hitems, fun m => ?_, ?_⟩
    · rw [hpre m, List.mem_append, List.mem_singleton]
    · simp only [Bool.and_eq_true, decide_eq_true_eq, h.subscribed, List.mem_append,
        List.mem_singleton, or_imp, forall_and, forall_eq]

theorem run_append_singleton (requests : List Bytes) (ps : List ProgressNotification)
    (p : ProgressNotification) :
    run requests (ps ++ [p]) = next requests (run requests ps) p := by
  simp [run, List.foldl_append]

theorem tracks_run (hmem : ∀ p ∈ ps, p.1 ∈ requests)
    (hbelow : ∀ qs, qs <+: ps → qs ≠ ps → tableMean requests qs < 1) :
    Tracks requests ps (run requests ps) := by
  induction ps using List.reverseRecOn with
  | nil =>
    refine ⟨.nil, fun m => iff_of_false nofun ?_, iff_of_true rfl nofun⟩
    rintro ⟨qs, hqs, hne, -⟩
    exact hne (List.prefix_nil.mp hqs)
  | append_singleton ps p ih =>
    have hproper (qs : List ProgressNotification) (hqs : qs <+: ps) :
        tableMean requests qs < 1 := by
      refine hbelow qs (hqs.trans (List.prefix_append _ _)) fun heq => ?_
      have hle := hqs.length_le
      simp [heq] at hle
    have hbefore := ih (fun q hq => hmem q (List.mem_append_left _ hq))
      fun qs hqs _ => hproper qs hqs
    rw [run_append_singleton]
    exact hbefore.next hmem (hbefore.isSubscribed hproper)

/-- The state before a notification that comes in time, and what is replayed after it. -/
theorem step_run {qs : List ProgressNotification} (hmem : ∀ p ∈ ps, p.1 ∈ requests)
    (hbelow : ∀ qs, qs <+: ps → qs ≠ ps → tableMean requests qs < 1) (hqs : qs ++ [p] <+: ps) :
    Tracks requests qs (run requests qs) ∧ (run requests (qs ++ [p])).progress =
      if tableMean requests (qs ++ [p]) ∈ (run requests qs).distinct then
        (run requests qs).progress
      else some (tableMean requests (qs ++ [p])) := by
  have hown : ∀ q ∈ qs ++ [p], q.1 ∈ requests := fun q hq => hmem q (hqs.mem hq)
  have hproper (rs : List ProgressNotification) (hrs : rs <+: qs) : tableMean requests rs < 1 := by
    refine hbelow rs (hrs.trans ((List.prefix_append _ _).trans hqs)) fun heq => ?_
    have hle := hrs.length_le
    have hle' := hqs.length_le
    simp only [heq, List.length_append, List.length_singleton] at hle hle'
    omega
  have htracks := tracks_run (fun q hq => hown q (List.mem_append_left _ hq))
    fun rs hrs _ => hproper rs hrs
  rw [run_append_singleton]
  exact ⟨htracks, progress_next htracks hown (htracks.isSubscribed hproper)⟩

/-! ### What the subscribers are told -/

def Current (requests : List Bytes) (ps : List ProgressNotification) : Prop :=
  ∀ qs, qs <+: ps → qs ≠ [] → (run requests qs).progress = some (mean requests qs)

/-- The notification does not take the mean back to a value that it had before and left. -/
def NoReturn (requests : List Bytes) (ps : List ProgressNotification) (p : ProgressNotification) :
    Prop :=
  ∀ qs, qs <+: ps → qs ≠ [] → mean requests qs = mean requests (ps ++ [p]) →
    mean requests ps = mean requests (ps ++ [p])

/-- A request that is in the batch twice and goes ahead spoils the amount. -/
theorem noDouble_of_current (hmem : ∀ p ∈ ps, p.1 ∈ requests) (hamounts : ∀ p ∈ ps, 0 ≤ p.2)
    (hbelow : ∀ qs, qs <+: ps → qs ≠ ps → tableMean requests qs < 1)
    (h : Current requests ps) {qs : List ProgressNotification} (hqs : qs <+: ps) :
    NoDouble requests qs := by
  induction qs using List.reverseRecOn with
  | nil => exact nofun
  | append_singleton qs p ih =>
    have hsofar := ih ((List.prefix_append _ _).trans hqs)
    intro q hq htwice
    rcases List.mem_append.mp hq with hq | hq
    · exact hsofar q hq htwice
    · obtain rfl := List.mem_singleton.mp hq
      by_contra hne
      have hpos : 0 < q.2 := lt_of_le_of_ne (hamounts q (hqs.mem (by simp))) (Ne.symm hne)
      obtain ⟨htable, hmean⟩ := hsofar.means_append_singleton htwice hpos
      obtain ⟨htracks, hprogress⟩ := step_run hmem hbelow hqs
      rw [h (qs ++ [q]) hqs (by simp)] at hprogress
      split_ifs at hprogress with hold
      · obtain ⟨rs, hrs, hrsne, -⟩ := (htracks.distinct _).mp hold
        have hqsne : qs ≠ [] := fun hnil => hrsne (List.prefix_nil.mp (hnil ▸ hrs))
        rw [h qs ((List.prefix_append _ _).trans hqs) hqsne] at hprogress
        exact hmean.ne' (Option.some.inj hprogress)
      · exact htable.ne' (Option.some.inj hprogress)

/-- After every notification, up to the one by which the mean gets to one, the subscribers have
been told the mean just when no request that is in the batch twice goes ahead and no
notification takes the mean back to a value that it has left. -/
theorem current_iff (hmem : ∀ p ∈ ps, p.1 ∈ requests) (hamounts : ∀ p ∈ ps, 0 ≤ p.2)
    (hbelow : ∀ qs, qs <+: ps → qs ≠ ps → mean requests qs < 1) : Current requests ps ↔
      NoDouble requests ps ∧ ∀ qs p, qs ++ [p] <+: ps → NoReturn requests qs p := by
  have hbelow (qs : List ProgressNotification) (hqs : qs <+: ps) (hne : qs ≠ ps) :
      tableMean requests qs < 1 :=
    (tableMean_le_mean fun p hp => hamounts p (hqs.mem hp)).trans_lt (hbelow qs hqs hne)
  constructor
  · intro h
    have hdouble := noDouble_of_current hmem hamounts hbelow h List.prefix_rfl
    refine ⟨hdouble, fun qs p hqs rs hrs hne hmean => ?_⟩
    obtain ⟨htracks, hprogress⟩ := step_run hmem hbelow hqs
    have hbefore := (List.prefix_append _ _).trans hqs
    rw [← (hdouble.mono (hrs.trans hbefore).subset).tableMean_eq_mean,
      ← (hdouble.mono hqs.subset).tableMean_eq_mean] at hmean
    have hold : tableMean requests (qs ++ [p]) ∈ (run requests qs).distinct :=
      (htracks.distinct _).mpr ⟨rs, hrs, hne, hmean⟩
    have hqsne : qs ≠ [] := fun hnil => hne (List.prefix_nil.mp (hnil ▸ hrs))
    rw [h (qs ++ [p]) hqs (by simp), if_pos hold, h qs hbefore hqsne] at hprogress
    exact (Option.some.inj hprogress).symm
  · rintro ⟨hdouble, h⟩ qs hqs hne
    induction qs using List.reverseRecOn with
    | nil => exact absurd rfl hne
    | append_singleton qs p ih =>
      obtain ⟨htracks, hprogress⟩ := step_run hmem hbelow hqs
      have hbefore := (List.prefix_append _ _).trans hqs
      have hmean := (hdouble.mono hqs.subset).tableMean_eq_mean
      rw [hprogress, hmean]
      split_ifs with hold
      · obtain ⟨rs, hrs, hrsne, heq⟩ := (htracks.distinct _).mp hold
        rw [(hdouble.mono (hrs.trans hbefore).subset).tableMean_eq_mean] at heq
        have hqsne : qs ≠ [] := fun hnil => hrsne (List.prefix_nil.mp (hnil ▸ hrs))
        rw [ih hbefore hqsne, h qs p hqs rs hrs hrsne heq]
      · rfl

def goingAhead : List ProgressNotification :=
  [(ascii "a", 1 / 2), (ascii "b", 1 / 2), (ascii "a", 1)]

theorem goingAhead_told : (run [ascii "a", ascii "b"] goingAhead).progress =
    some (mean [ascii "a", ascii "b"] goingAhead) := by
  have hbelow : ∀ qs ∈ goingAhead.inits, qs ≠ goingAhead →
      mean [ascii "a", ascii "b"] qs < 1 := by decide +kernel
  have hmeans : ∀ qs ∈ goingAhead.inits, ∀ rs ∈ goingAhead.inits,
      mean [ascii "a", ascii "b"] qs = mean [ascii "a", ascii "b"] rs → qs = rs := by
    decide +kernel
  have htold := (current_iff (by decide) (by decide +kernel)
    fun qs hqs => hbelow qs ((List.mem_inits qs _).mpr hqs)).mpr
  have hdouble : NoDouble [ascii "a", ascii "b"] goingAhead := by
    unfold NoDouble
    decide +kernel
  refine htold ⟨hdouble, fun qs p hqs rs hrs _ hmean => ?_⟩ goingAhead List.prefix_rfl (by decide)
  have hearlier := hrs.trans ((List.prefix_append _ _).trans hqs)
  have heq := hmeans rs ((List.mem_inits rs _).mpr hearlier) _ ((List.mem_inits _ _).mpr hqs) hmean
  have hle := hrs.length_le
  simp [heq] at hle

def goingBack : List ProgressNotification :=
  [(ascii "a", 1 / 2), (ascii "a", 1 / 5), (ascii "a", 1 / 2)]

/-- The second half is not told again. -/
theorem goingBack_stale : ¬ ∀ (requests : List Bytes) (ps : List ProgressNotification),
    requests.Nodup → requests ≠ [] → (∀ p ∈ ps, p.1 ∈ requests ∧ 0 ≤ p.2 ∧ p.2 ≤ 1) →
    (∀ qs, qs <+: ps → qs ≠ ps → mean requests qs < 1) → ps ≠ [] →
    (run requests ps).progress = some (mean requests ps) := by
  intro hall
  have hbelow : ∀ qs ∈ goingBack.inits, qs ≠ goingBack → mean [ascii "a"] qs < 1 := by
    decide +kernel
  have htold := hall [ascii "a"] goingBack (by decide) (by decide) (by decide +kernel)
    (fun qs hqs => hbelow qs ((List.mem_inits qs _).mpr hqs)) (by decide)
  revert htold
  decide +kernel

end BatchProgress
end Rockets.Js
