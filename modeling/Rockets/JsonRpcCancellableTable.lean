import Rockets.JsonRpcCancellableCompletion

set_option autoImplicit false
set_option linter.unusedSectionVars false

/-!
# The table of pending requests

What the table holds whenever no operation is in progress, and what a cancel notification
finds there. A cancel function in the table is never empty, a respond callback may be.
-/
namespace Rockets.JsonRpc.Cancellable
open Function (update)
variable {κ ρ ι θ δ : Type} [DecidableEq κ] [DecidableEq ρ] [DecidableEq ι] [DecidableEq θ]
  [DecidableEq δ] {T : Traffic κ ρ ι θ δ} {s : State κ ρ ι θ δ} {e : Event ρ ι θ δ}
  {k : θ} {r : ρ} {j : ι}

section Definitions
variable (T : Traffic κ ρ ι θ δ) (s : State κ ρ ι θ δ) (r : ρ)

structure Quiescent : Prop where
  mutex : s.mutex = none
  process : ∀ r, s.process r = .idle ∨ s.process r = .finished
  completion : ∀ j, s.completion j ≠ .locked ∧ s.completion j ≠ .erased
  cancel : ∀ k, (s.cancel k).holds = false

def Answered : Prop := ∃ j, .result j ∈ s.answered r

def Pending : Prop := s.process r ≠ .idle ∧ ¬ Answered s r ∧ ¬ TakenOut T s r

def Settled : Prop := (∃ j, T.target j = r ∧ Erased s j) ∨ TakenOut T s r

/-- No cancel function is stored for a request that is answered or cancelled already. -/
def StoresUnsettled : Event ρ ι θ δ → Prop
  | .lockStore r => ¬ Settled T s r
  | _ => True

/-- The table holds the pending requests, with respond callbacks that can be called. A
cancel notification for any other request changes nothing, and none has thrown. -/
structure TableInvariant : Prop where
  entries : ∀ key, s.requests key ≠ none ↔ ∃ r, T.id r = key ∧ Pending T s r
  callable : ∀ key entry, s.requests key = some entry →
    ∃ r, T.id r = key ∧ entry.second = some r
  missed : ∀ k, s.cancel k = .idle → (∀ r, T.id r = T.victim k → ¬ Pending T s r) →
    T.next (T.next s (.lockCancel k)) (.find k) =
      { s with cancel := update s.cancel k .missed }
  calm : ∀ k entry, s.cancel k ≠ .unwound entry

structure Tabled : Prop where
  present : ∀ r, s.process r ≠ .idle → s.requests (T.id r) ≠ none ∨ Settled T s r
  settled : ∀ r, Settled T s r → s.process r ≠ .idle ∧ s.requests (T.id r) = none
  callable : ∀ key entry, s.requests key = some entry →
    ∃ r, T.id r = key ∧ entry.second = some r
  found : ∀ k entry, (s.cancel k).lookup? = some entry → entry.second ≠ none
  calm : ∀ k entry, s.cancel k ≠ .unwound entry

end Definitions

section Steps

theorem settled_mono (he : T.Enabled s e) (h : Settled T s r) : Settled T (T.next s e) r := by
  rcases h with ⟨j, hj, herased⟩ | htaken
  · exact .inl ⟨j, hj, erased_mono he herased⟩
  · exact .inr (takenOut_mono he htaken)

theorem settled_since (he : T.Enabled s e) (h : Settled T (T.next s e) r) : Settled T s r ∨
    (∃ j, e = .erase j ∧ T.target j = r ∧ s.requests (T.id r) ≠ none) ∨
      ∃ k entry, e = .eraseCancel k ∧ T.victim k = T.id r ∧ s.cancel k = .called entry := by
  rcases h with ⟨j, hj, herased⟩ | ⟨k, hk, herased⟩
  · rcases erased_next he herased with hold | ⟨rfl, hentry⟩
    · exact .inl (.inl ⟨j, hj, hold⟩)
    · exact .inr (.inl ⟨j, rfl, hj, hj ▸ hentry⟩)
  · by_cases hold : (s.cancel k).isErased = true
    · exact .inl (.inr ⟨k, hk, hold⟩)
    · refine .inr (.inr ?_)
      rcases T.cancel_next s e k with hnext | rfl | rfl | rfl | rfl | rfl
      · exact absurd (hnext ▸ herased) hold
      · simp [Traffic.next, CancelPhase.isErased] at herased
      · simp only [Traffic.next] at herased
        split at herased <;> simp [CancelPhase.isErased] at herased
      · obtain ⟨entry, hfound⟩ := found_of_callCancel he
        simp [Traffic.next, hfound, CancelPhase.isErased] at herased
      · obtain ⟨entry, hcalled, -⟩ := called_of_unwind he
        simp [Traffic.next, hcalled, CancelPhase.isErased] at herased
      · obtain ⟨entry, hcalled⟩ := called_of_eraseCancel he
        exact ⟨k, entry, rfl, hk, hcalled⟩

variable (hid : Function.Injective T.id) (ht : Tracked T s) (h : Tabled T s)
  (he : T.Enabled s e) (hg : StoresUnsettled T s e)
include h he

include hid in
theorem present_kept (hr : (T.next s e).process r ≠ .idle) :
    (T.next s e).requests (T.id r) ≠ none ∨ Settled T (T.next s e) r := by
  by_cases hidle : s.process r = .idle
  · obtain rfl := lockInsert_of_begun he hidle hr
    exact .inl (by simp [Traffic.next, Function.update_self])
  · rcases h.present r hidle with hentry | hsettled
    · rcases kept_next (T := T) (e := e) hentry with hkept | ⟨j, rfl, hj⟩ | ⟨k, rfl, hk⟩
      · exact .inl hkept
      · have hentry' : s.requests (T.id (T.target j)) ≠ none := hj ▸ hentry
        exact .inr (.inl ⟨j, hid hj, .inl (by simp [Traffic.next, hentry'])⟩)
      · obtain ⟨entry, hcalled⟩ := called_of_eraseCancel he
        exact .inr (.inr ⟨k, hk, by simp [Traffic.next, hcalled, CancelPhase.isErased]⟩)
    · exact .inr (settled_mono he hsettled)

include hid ht hg in
theorem settled_kept (hr : Settled T (T.next s e) r) :
    (T.next s e).process r ≠ .idle ∧ (T.next s e).requests (T.id r) = none := by
  rcases settled_since he hr with hold | ⟨j, rfl, rfl, hentry⟩ | ⟨k, entry, rfl, hk, hcalled⟩
  · obtain ⟨hbegun, habsent⟩ := h.settled r hold
    refine ⟨begun_next he hbegun, ?_⟩
    rcases absent_next (T := T) (e := e) habsent with hnone | ⟨q, rfl | rfl, hq⟩
    · exact hnone
    · exact absurd (hid hq ▸ he.2) hbegun
    · exact absurd hold (hid hq ▸ hg)
  · have hlocked : s.completion j = .locked := he
    refine ⟨begun_next he (ht.started j (by rw [hlocked]; nofun)), ?_⟩
    simp [Traffic.next, hentry]
  · have hlookup : (s.cancel k).lookup? = some entry := by
      rw [hcalled]
      rfl
    obtain ⟨q, hq⟩ := Option.ne_none_iff_exists'.mp (h.found k entry hlookup)
    have hcaptured : s.captured k = some q := Option.bind_eq_some_iff.mpr ⟨entry, hlookup, hq⟩
    have hqr : q = r := hid ((ht.victim k q hcaptured).trans hk)
    refine ⟨begun_next he (hqr ▸ ht.entitled q (.aborted k) hcaptured), ?_⟩
    simp [Traffic.next, hcalled, hk]

include hg in
theorem callable_kept {key : Option κ} {entry : Entry ρ}
    (hentry : (T.next s e).requests key = some entry) :
    ∃ r, T.id r = key ∧ entry.second = some r := by
  rcases T.requests_next s e key with hkey | ⟨r, rfl | rfl, rfl⟩ | ⟨hnone, -⟩
  · exact h.callable key entry (hkey.symm.trans hentry)
  · simp only [Traffic.next, Function.update_self, Option.some.injEq] at hentry
    exact ⟨r, rfl, hentry ▸ rfl⟩
  · -- the entry is still the one that the request has inserted
    have hbegun : s.process r ≠ .idle := by
      simp [he.2]
    obtain ⟨old, hold⟩ := Option.ne_none_iff_exists'.mp ((h.present r hbegun).resolve_right hg)
    obtain ⟨q, hq, hsecond⟩ := h.callable _ old hold
    simp only [Traffic.next, Function.update_self, Option.some.injEq, hold] at hentry
    exact ⟨q, hq, hentry ▸ hsecond⟩
  · cases hnone.symm.trans hentry

theorem found_kept {entry : Entry ρ} (hk : ((T.next s e).cancel k).lookup? = some entry) :
    entry.second ≠ none := by
  rcases lookup?_next he k with hsame | ⟨rfl, -, hfound⟩
  · exact h.found k entry (hsame.symm.trans hk)
  · obtain ⟨q, -, hq⟩ := h.callable _ entry (hfound.symm.trans hk)
    rw [hq]
    nofun

theorem calm_kept (k : θ) (entry : Entry ρ) : (T.next s e).cancel k ≠ .unwound entry := by
  intro hk
  rcases T.cancel_next s e k with hnext | rfl | rfl | rfl | rfl | rfl
  · exact h.calm k entry (hnext.symm.trans hk)
  · simp [Traffic.next] at hk
  · simp only [Traffic.next] at hk
    split at hk <;> simp at hk
  · obtain ⟨found, hfound⟩ := found_of_callCancel he
    simp [Traffic.next, hfound] at hk
  · obtain ⟨called, hcalled, hempty⟩ := called_of_unwind he
    exact h.found k called (by rw [hcalled]; rfl) hempty
  · obtain ⟨called, hcalled⟩ := called_of_eraseCancel he
    simp [Traffic.next, hcalled] at hk

include hid ht hg in
theorem tabled_step : Tabled T (T.next s e) where
  present _ hr := present_kept hid h he hr
  settled _ hr := settled_kept hid ht h he hg hr
  callable _ _ hentry := callable_kept h he hg hentry
  found _ _ hk := found_kept h he hk
  calm := calm_kept h he

end Steps

section Invariant

instance [Fintype θ] [Fintype ι] (r : ρ) : Decidable (Settled T s r) :=
  inferInstanceAs (Decidable (_ ∨ _))

instance [Fintype ι] [Fintype θ] (e : Event ρ ι θ δ) : Decidable (StoresUnsettled T s e) :=
  match e with
  | .lockStore r => inferInstanceAs (Decidable (¬ Settled T s r))
  | .lockInsert _ | .unlockInsert _ | .callAction _ | .returnAction _ _ | .unlockStore _
  | .tryLock _ | .erase _ | .respond _ | .lockCancel _ | .find _ | .callCancel _ | .unwind _
  | .eraseCancel _ | .done _ => isTrue trivial

theorem not_settled_initial (r : ρ) : ¬ Settled T State.initial r := by
  rintro (⟨j, -, herased⟩ | ⟨k, -, herased⟩)
  · exact herased.elim nofun nofun
  · cases herased

theorem tabled_initial : Tabled T State.initial where
  present _ hr := absurd rfl hr
  settled r hr := absurd hr (not_settled_initial r)
  callable := nofun
  found := nofun
  calm := nofun

variable {es : List (Event ρ ι θ δ)}

theorem tabled_run (hid : Function.Injective T.id)
    (h : T.machine.Guarded (StoresUnsettled T) es s) : (Locked s ∧ Tracked T s) ∧ Tabled T s :=
  h.invariant (I := fun s => (Locked s ∧ Tracked T s) ∧ Tabled T s)
    ⟨⟨locked_initial, tracked_initial⟩, tabled_initial⟩
    fun _ _ ⟨⟨hs, ht⟩, h⟩ he hg =>
      ⟨⟨locked_step hs he, tracked_step hs ht he⟩, tabled_step hid ht h he hg⟩

/-- When no operation is in progress, only requests that were answered or cancelled are
settled. -/
theorem settled_iff (ht : Tracked T s) (hq : Quiescent s) :
    Settled T s r ↔ Answered s r ∨ TakenOut T s r := by
  constructor
  · rintro (⟨j, rfl, herased | hresponded⟩ | htaken)
    · exact absurd herased (hq.completion j).2
    · exact .inl ⟨j, ht.responded j hresponded⟩
    · exact .inr htaken
  · rintro (⟨j, hj⟩ | htaken)
    · exact .inl ⟨j, ht.replied r _ hj⟩
    · exact .inr htaken

theorem entries_iff (ht : Tracked T s) (h : Tabled T s) (hq : Quiescent s) (key : Option κ) :
    s.requests key ≠ none ↔ ∃ r, T.id r = key ∧ Pending T s r := by
  have hpending (r : ρ) : Pending T s r ↔ s.process r ≠ .idle ∧ ¬ Settled T s r := by
    rw [settled_iff ht hq, not_or]
    rfl
  constructor
  · intro hentry
    obtain ⟨entry, hsome⟩ := Option.ne_none_iff_exists'.mp hentry
    obtain ⟨r, rfl, hr⟩ := h.callable key entry hsome
    refine ⟨r, rfl, (hpending r).mpr ⟨ht.begun _ entry r hsome hr, fun hsettled => ?_⟩⟩
    exact hentry (h.settled r hsettled).2
  · rintro ⟨r, rfl, hr⟩
    obtain ⟨hbegun, hunsettled⟩ := (hpending r).mp hr
    exact (h.present r hbegun).resolve_right hunsettled

/-- In every run that stores cancel functions only for unsettled requests, and after every
operation of it, the table holds the pending requests. -/
theorem table_invariant (hid : Function.Injective T.id)
    (h : T.machine.Guarded (StoresUnsettled T) es s) (hq : Quiescent s) : TableInvariant T s := by
  obtain ⟨⟨-, ht⟩, htabled⟩ := tabled_run hid h
  refine ⟨entries_iff ht htabled hq, htabled.callable, fun k _ hother => ?_, htabled.calm⟩
  have habsent : s.requests (T.victim k) = none := by
    by_contra hentry
    obtain ⟨r, hr, hpending⟩ := (entries_iff ht htabled hq _).mp hentry
    exact hother r hr hpending
  simp [Traffic.next, habsent, hq.mutex]

/-- Request 0 answers after its cancel function is stored, request 1 at once without giving
one, and both are then cancelled in vain. -/
def answeredInTime : List (Event (Fin 2) (Fin 2) (Fin 2) (Fin 2)) :=
  [.lockInsert 0, .unlockInsert 0, .callAction 0, .returnAction 0 true, .lockStore 0,
    .unlockStore 0, .tryLock 0, .erase 0, .respond 0, .lockInsert 1, .unlockInsert 1,
    .callAction 1, .tryLock 1, .erase 1, .respond 1, .returnAction 1 false, .lockCancel 0,
    .find 0, .lockCancel 1, .find 1]

/-- Request 0 answers, its action then returns a cancel function, and it is cancelled. -/
def answeredBeforeStore : List (Event (Fin 2) (Fin 2) (Fin 2) (Fin 2)) :=
  [.lockInsert 0, .unlockInsert 0, .callAction 0, .tryLock 0, .erase 0, .respond 0,
    .returnAction 0 true, .lockStore 0, .unlockStore 0, .lockCancel 0, .find 0, .callCancel 0,
    .unwind 0]

theorem answeredInTime_invariant :
    ∃ s, twoRequests.machine.Guarded (StoresUnsettled twoRequests) answeredInTime s ∧
      TableInvariant twoRequests s ∧ s.requests (some 0) = none ∧ s.requests (some 1) = none := by
  have hrun := Machine.Path.of_isSome (M := twoRequests.machine)
    (G := StoresUnsettled twoRequests) twoRequests.machine.init answeredInTime (by decide)
  have hid : Function.Injective twoRequests.id := fun _ _ h => Option.some.inj h
  exact ⟨_, hrun, table_invariant hid hrun ⟨by decide, by decide, by decide, by decide⟩,
    by decide, by decide⟩

/-- The entry stays behind without a respond callback: the cancel notification calls the cancel
function of the action, and `done` throws. -/
theorem answeredBeforeStore_stale :
    ¬ ∀ (T : Traffic (Fin 2) (Fin 2) (Fin 2) (Fin 2) (Fin 2))
      (es : List (Event (Fin 2) (Fin 2) (Fin 2) (Fin 2))) (s : State _ _ _ _ _),
      Function.Injective T.id → T.machine.Run es s → Quiescent s → TableInvariant T s := by
  intro hall
  have hrun := Machine.Path.of_isSome (M := twoRequests.machine) (G := fun _ _ => True)
    twoRequests.machine.init answeredBeforeStore (by decide)
  have hid : Function.Injective twoRequests.id := fun _ _ h => Option.some.inj h
  have htable := hall twoRequests _ _ hid hrun ⟨by decide, by decide, by decide, by decide⟩
  exact htable.calm 0 { first := .action 0, second := none } (by decide)

end Invariant
end Rockets.JsonRpc.Cancellable
