import Rockets.JsonRpcCancellableReplies

set_option autoImplicit false
set_option linter.unusedSectionVars false

/-!
# Completions of cancellable requests

When a response callback may return without having responded.
-/
namespace Rockets.JsonRpc.Cancellable
open Function (update)
variable {κ ρ ι θ δ : Type} [DecidableEq κ] [DecidableEq ρ] [DecidableEq ι] [DecidableEq θ]
  [DecidableEq δ] {T : Traffic κ ρ ι θ δ} {s : State κ ρ ι θ δ} {e : Event ρ ι θ δ}
  {k : θ} {r : ρ} {j : ι}

section Definitions
variable (T : Traffic κ ρ ι θ δ) (s : State κ ρ ι θ δ) (r : ρ)

/-- A cancel notification has erased the entry of the request from the table. -/
def TakenOut : Prop := ∃ k, T.victim k = T.id r ∧ (s.cancel k).isErased = true

/-- The lock is held on behalf of a cancel notification for the request. -/
def BeingCancelled : Prop := ∃ k, T.victim k = T.id r ∧ s.mutex = some (.cancel k)

/-- No cancel notification names the request. -/
def Uncancelled : Prop := ∀ k, T.victim k = T.id r → s.cancel k = .idle

/-- A response callback only finds the mutex taken when its request is cancelled, is not
invoked again, and does not come before its request's cancel function is stored. -/
def LockedForCancel : Event ρ ι θ δ → Prop
  | .tryLock j => (s.mutex ≠ none → TakenOut T s (T.target j) ∨ BeingCancelled T s (T.target j)) ∧
      ∀ j', T.target j' = T.target j → j' ≠ j → s.completion j' = .idle
  | .lockStore r => ∀ j, T.target j = r → ¬ Erased s j
  | _ => True

/-- What has become of the entries of the requests, and of the response callbacks. -/
structure Accounted : Prop where
  alone : ∀ j j', T.target j = T.target j' → s.completion j ≠ .idle →
    s.completion j' ≠ .idle → j = j'
  present : ∀ r, s.process r ≠ .idle → s.requests (T.id r) ≠ none ∨ TakenOut T s r ∨
    ∃ j, T.target j = r ∧ Erased s j
  removed : ∀ j, Erased s j → s.requests (T.id (T.target j)) = none
  skipped : ∀ j, s.completion j = .skipped → ¬ Uncancelled T s (T.target j)

end Definitions

section Monotonicity

theorem cancel_begun (he : T.Enabled s e) (h : s.cancel k ≠ .idle) :
    (T.next s e).cancel k ≠ .idle := by
  rcases T.cancel_next s e k with hk | rfl | rfl | rfl | rfl | rfl
  · exact hk ▸ h
  · exact absurd he.2 h
  all_goals
    simp only [Traffic.next]
    split
    · simp [Function.update_self]
    · first | exact h | simp [Function.update_self]

theorem lockInsert_of_begun (he : T.Enabled s e) (hidle : s.process r = .idle)
    (hr : (T.next s e).process r ≠ .idle) : e = .lockInsert r := by
  rcases T.process_next s e r with hnext | rfl | rfl | rfl | rfl | rfl | rfl | rfl
  · exact absurd (hnext.trans hidle) hr
  · rfl
  · exact absurd (hidle.symm.trans he) nofun
  · exact absurd (hidle.symm.trans he) nofun
  · exact absurd (hidle.symm.trans he) nofun
  · exact absurd (hidle.symm.trans he) nofun
  · exact absurd (hidle.symm.trans he.2) nofun
  · exact absurd (hidle.symm.trans he) nofun

theorem cancel_erased (he : T.Enabled s e) (h : (s.cancel k).isErased = true) :
    ((T.next s e).cancel k).isErased = true := by
  rcases T.cancel_next s e k with hk | rfl | rfl | rfl | rfl | rfl
  · exact hk ▸ h
  · simp [he.2, CancelPhase.isErased] at h
  · have hlocked : s.cancel k = .locked := he
    simp [hlocked, CancelPhase.isErased] at h
  all_goals
    simp only [Traffic.next]
    split
    · simp_all [CancelPhase.isErased]
    · exact h

theorem takenOut_mono (he : T.Enabled s e) (h : TakenOut T s r) : TakenOut T (T.next s e) r := by
  obtain ⟨k, hk, herased⟩ := h
  exact ⟨k, hk, cancel_erased he herased⟩

theorem uncancelled_of_next (he : T.Enabled s e) (h : Uncancelled T (T.next s e) r) :
    Uncancelled T s r := by
  intro k hk
  by_contra hbegun
  exact cancel_begun he hbegun (h k hk)

end Monotonicity

section Accounting

theorem TakenOut.cancelled (h : TakenOut T s r) : ¬ Uncancelled T s r := by
  obtain ⟨k, hk, herased⟩ := h
  intro hidle
  simp [hidle k hk, CancelPhase.isErased] at herased

theorem BeingCancelled.cancelled (hs : Locked s) (h : BeingCancelled T s r) :
    ¬ Uncancelled T s r := by
  obtain ⟨k, hk, hmutex⟩ := h
  intro hidle
  have hholds := (hs.cancel k).mpr hmutex
  simp [hidle k hk, CancelPhase.holds] at hholds

variable (hid : Function.Injective T.id) (hs : Locked s) (ht : Tracked T s) (h : Accounted T s)
  (he : T.Enabled s e) (hg : LockedForCancel T s e)
include h he

include hg

include ht in
theorem cancelled_of_skip (hj : s.completion j ≠ .skipped)
    (hskip : (T.next s e).completion j = .skipped) :
    TakenOut T s (T.target j) ∨ BeingCancelled T s (T.target j) := by
  rcases T.completion_next s e j with hnext | rfl | rfl | rfl
  · exact absurd (hnext.symm.trans hskip) hj
  · apply hg.1
    intro hfree
    simp [Traffic.next, hfree, Function.update_self] at hskip
  · have hlocked : s.completion j = .locked := he
    have habsent : s.requests (T.id (T.target j)) = none := by
      by_contra hentry
      simp [Traffic.next, hentry, Function.update_self] at hskip
    have hbegun := ht.started j (by simp [hlocked])
    rcases h.present _ hbegun with hentry | htaken | ⟨j', hj', herased⟩
    · exact absurd habsent hentry
    · exact .inl htaken
    · have hbegun' : s.completion j' ≠ .idle := by
        rcases herased with herased | herased <;> simp [herased]
      obtain rfl := h.alone j' j hj' hbegun' (by simp [hlocked])
      rcases herased with herased | herased <;> cases hlocked.symm.trans herased
  · simp [Traffic.next, Function.update_self] at hskip

theorem alone_step {j' : ι} (htarget : T.target j = T.target j')
    (hj : (T.next s e).completion j ≠ .idle) (hj' : (T.next s e).completion j' ≠ .idle) :
    j = j' := by
  have hold (i : ι) (hi : (T.next s e).completion i ≠ .idle) (hidle : s.completion i = .idle) :
      e = .tryLock i := by
    rcases T.completion_next s e i with hnext | rfl | rfl | rfl
    · exact absurd (hnext.trans hidle) hi
    · rfl
    · exact absurd (hidle.symm.trans he) nofun
    · exact absurd (hidle.symm.trans he) nofun
  by_cases hidle : s.completion j = .idle
  · obtain rfl := hold j hj hidle
    by_contra hne
    have hidle' := hg.2 j' htarget.symm (Ne.symm hne)
    cases hold j' hj' hidle'
    exact hne rfl
  · by_cases hidle' : s.completion j' = .idle
    · obtain rfl := hold j' hj' hidle'
      by_contra hne
      exact hidle (hg.2 j htarget hne)
    · exact h.alone j j' htarget hidle hidle'

include hid

theorem present_step (hr : (T.next s e).process r ≠ .idle) :
    (T.next s e).requests (T.id r) ≠ none ∨ TakenOut T (T.next s e) r ∨
      ∃ j, T.target j = r ∧ Erased (T.next s e) j := by
  by_cases hidle : s.process r = .idle
  · obtain rfl := lockInsert_of_begun he hidle hr
    exact .inl (by simp [Traffic.next, Function.update_self])
  · rcases h.present r hidle with hentry | htaken | ⟨j, hj, herased⟩
    · rcases kept_next (T := T) (e := e) hentry with hkept | ⟨j, rfl, hj⟩ | ⟨k, rfl, hk⟩
      · exact .inl hkept
      · have hentry' : s.requests (T.id (T.target j)) ≠ none := hj ▸ hentry
        exact .inr (.inr ⟨j, hid hj, .inl (by simp [Traffic.next, hentry'])⟩)
      · obtain ⟨entry, hcalled⟩ := called_of_eraseCancel he
        exact .inr (.inl ⟨k, hk, by simp [Traffic.next, hcalled, CancelPhase.isErased]⟩)
    · exact .inr (.inl (takenOut_mono he htaken))
    · exact .inr (.inr ⟨j, hj, erased_mono he herased⟩)

include ht

theorem removed_step (hj : Erased (T.next s e) j) :
    (T.next s e).requests (T.id (T.target j)) = none := by
  rcases erased_next he hj with hj' | ⟨rfl, hentry⟩
  · rcases absent_next (T := T) (e := e) (h.removed j hj') with hnone | ⟨r, rfl | rfl, hr⟩
    · exact hnone
    · have hbegun : s.completion j ≠ .idle := by
        rcases hj' with hj' | hj' <;> rw [hj'] <;> nofun
      exact absurd (hid hr ▸ he.2) (ht.started j hbegun)
    · exact absurd hj' (hg j (hid hr).symm)
  · simp [Traffic.next, hentry]

include hs in
theorem accounted_step : Accounted T (T.next s e) where
  alone _ _ htarget hj hj' := alone_step h he hg htarget hj hj'
  present _ hr := present_step hid h he hg hr
  removed _ hj := removed_step hid ht h he hg hj
  skipped j hj huncancelled := by
    have huncancelled := uncancelled_of_next he huncancelled
    by_cases hold : s.completion j = .skipped
    · exact h.skipped j hold huncancelled
    · rcases cancelled_of_skip ht h he hg hold hj with htaken | hcancelled
      · exact htaken.cancelled huncancelled
      · exact hcancelled.cancelled hs huncancelled

end Accounting

section NoReplyLost

theorem accounted_initial : Accounted T State.initial := by
  constructor
  case alone => exact fun j _ _ hj => absurd rfl hj
  case present => exact fun r hr => absurd rfl hr
  case removed => exact fun j hj => hj.elim nofun nofun
  case skipped => exact nofun

variable {es : List (Event ρ ι θ δ)}

/-- Under the guard a response callback returns without responding only when its request is
cancelled, and a request that completes uncancelled is answered and leaves no entry. -/
theorem skipped_only_when_cancelled (hid : Function.Injective T.id)
    (h : T.machine.Guarded (LockedForCancel T) es s) :
    (∀ e j, T.Enabled s e → LockedForCancel T s e → s.completion j ≠ .skipped →
        (T.next s e).completion j = .skipped →
          TakenOut T s (T.target j) ∨ BeingCancelled T s (T.target j)) ∧
      ∀ j, s.completion j = .responded ∨ s.completion j = .skipped →
        Uncancelled T s (T.target j) →
          .result j ∈ s.answered (T.target j) ∧ s.requests (T.id (T.target j)) = none := by
  have hinvariant : (Locked s ∧ Tracked T s) ∧ Accounted T s :=
    h.invariant (I := fun s => (Locked s ∧ Tracked T s) ∧ Accounted T s)
      ⟨⟨locked_initial, tracked_initial⟩, accounted_initial⟩
      fun _ _ ⟨⟨hs, ht⟩, h⟩ he hg =>
        ⟨⟨locked_step hs he, tracked_step hs ht he⟩, accounted_step hid hs ht h he hg⟩
  obtain ⟨⟨-, htracked⟩, haccounted⟩ := hinvariant
  constructor
  · intro e j he hg hj hskip
    exact cancelled_of_skip htracked haccounted he hg hj hskip
  · intro j hj huncancelled
    rcases hj with hresponded | hskipped
    · exact ⟨htracked.responded j hresponded, haccounted.removed j (.inr hresponded)⟩
    · exact absurd huncancelled (haccounted.skipped j hskipped)

instance [Fintype θ] (r : ρ) : Decidable (TakenOut T s r) :=
  inferInstanceAs (Decidable (∃ _, _))

instance [Fintype θ] (r : ρ) : Decidable (BeingCancelled T s r) :=
  inferInstanceAs (Decidable (∃ _, _))

instance [Fintype θ] (r : ρ) : Decidable (Uncancelled T s r) :=
  inferInstanceAs (Decidable (∀ _, _))

instance (j : ι) : Decidable (Erased s j) := inferInstanceAs (Decidable (_ ∨ _))

instance [Fintype ι] [Fintype θ] (e : Event ρ ι θ δ) : Decidable (LockedForCancel T s e) :=
  match e with
  | .tryLock _ => inferInstanceAs (Decidable (_ ∧ _))
  | .lockStore _ => inferInstanceAs (Decidable (∀ _, _))
  | .lockInsert _ | .unlockInsert _ | .callAction _ | .returnAction _ _ | .unlockStore _
  | .erase _ | .respond _ | .lockCancel _ | .find _ | .callCancel _ | .unwind _ | .eraseCancel _
  | .done _ => isTrue trivial

/-- Both requests are outstanding; request 1 completes while the other one is cancelled, but
not while the lock is held. -/
theorem cancelledAfterStore_complete :
    ∃ s, twoRequests.machine.Guarded (LockedForCancel twoRequests) cancelledAfterStore s ∧
      (.result 1 ∈ s.answered 1 ∧ s.requests (some 1) = none) ∧ TakenOut twoRequests s 0 := by
  have hrun := Machine.Path.of_isSome (M := twoRequests.machine) (G := LockedForCancel twoRequests)
    twoRequests.machine.init cancelledAfterStore (by decide)
  have hid : Function.Injective twoRequests.id := fun _ _ h => Option.some.inj h
  exact ⟨_, hrun, (skipped_only_when_cancelled hid hrun).2 1 (by decide) (by decide), by decide⟩

/-- Request 0 completes while another thread inserts the entry of request 1. -/
def completedDuringInsert : List (Event (Fin 2) (Fin 2) (Fin 2) (Fin 2)) :=
  [.lockInsert 0, .unlockInsert 0, .callAction 0, .lockInsert 1]

theorem completedDuringInsert_lost :
    ¬ ∀ (T : Traffic (Fin 2) (Fin 2) (Fin 2) (Fin 2) (Fin 2))
      (es : List (Event (Fin 2) (Fin 2) (Fin 2) (Fin 2))) (s : State _ _ _ _ _),
      Function.Injective T.id → (∀ r, T.id r ≠ none) → T.machine.Run es s →
        ∀ e j, T.Enabled s e → s.completion j ≠ .skipped →
          (T.next s e).completion j = .skipped →
            TakenOut T s (T.target j) ∨ BeingCancelled T s (T.target j) := by
  intro hall
  have hrun := Machine.Path.of_isSome (M := twoRequests.machine) (G := fun _ _ => True)
    twoRequests.machine.init completedDuringInsert (by decide)
  have hid : Function.Injective twoRequests.id := fun _ _ h => Option.some.inj h
  have hcancelled := hall twoRequests _ _ hid nofun hrun (.tryLock 0) 0 (by decide) (by decide)
    (by decide)
  exact absurd hcancelled (by decide)

end NoReplyLost

end Rockets.JsonRpc.Cancellable
