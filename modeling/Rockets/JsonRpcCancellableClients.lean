import Rockets.JsonRpcCancellableReplies

set_option autoImplicit false
set_option linter.unusedSectionVars false

/-!
# Cancellable requests of several clients

When requests whose ids coincide leave each other alone.
-/
namespace Rockets.JsonRpc.Cancellable
open Function (update)
variable {κ ρ ι θ δ : Type} [DecidableEq κ] [DecidableEq ρ] [DecidableEq ι] [DecidableEq θ]
  [DecidableEq δ] {T : Traffic κ ρ ι θ δ} {s : State κ ρ ι θ δ} {e : Event ρ ι θ δ}
  {k : θ} {r : ρ} {j : ι}

section Definitions
variable (T : Traffic κ ρ ι θ δ) (s : State κ ρ ι θ δ) (r : ρ)

/-- The request has begun; it is neither completed nor cancelled. -/
def Outstanding : Prop :=
  s.process r ≠ .idle ∧ (∀ j, T.target j = r → ¬ Erased s j) ∧ ∀ k, s.captured k ≠ some r

/-- No other request with the same id is outstanding, of whatever client. -/
def Alone : Prop := ∀ r', T.id r' = T.id r → Outstanding T s r' → r' = r

/-- A cancel notification of the request's client has taken its entry or is about to. -/
def Cancelled : Prop := ∃ k, T.sender k = T.client r ∧ T.victim k = T.id r ∧
  (s.captured k = some r ∨ s.mutex = some (.cancel k))

/-- The lock is held by another response callback of the same request. -/
def BeingCompleted : Prop := ∃ j, T.target j = r ∧ s.mutex = some (.skip j)

/-- Ids are not shared by requests outstanding at the same time, cancel notifications name
requests of their own clients, and response callbacks do not find the lock taken for others. -/
def Separate (s : State κ ρ ι θ δ) : Event ρ ι θ δ → Prop
  | .lockInsert r | .lockStore r => Alone T s r
  | .tryLock j => s.mutex ≠ none → Outstanding T s (T.target j) →
      Cancelled T s (T.target j) ∨ BeingCompleted T s (T.target j)
  | .erase j => Alone T s (T.target j)
  | .find k => ∀ r, T.id r = T.victim k → Outstanding T s r → T.client r = T.sender k
  | _ => True

/-- One of the response callbacks of the request has got past the lock. -/
def Completing : Prop := ∃ j, T.target j = r ∧
  (s.completion j = .locked ∨ s.completion j = .erased ∨ s.completion j = .responded)

def Entry.IsFor (entry : Entry ρ) (r : ρ) : Prop :=
  entry.second = some r ∧ (entry.first = .temporary ∨ entry.first = .action r)

/-- Every outstanding request has an entry of its own. -/
structure Separated : Prop where
  own : ∀ key entry r, s.requests key = some entry → entry.second = some r → entry.IsFor r
  present : ∀ r, Outstanding T s r → ∃ entry, s.requests (T.id r) = some entry ∧ entry.IsFor r
  holding : ∀ k entry, s.cancel k = .found entry ∨ s.cancel k = .called entry →
    s.requests (T.victim k) = some entry
  captured : ∀ k entry r, (s.cancel k).lookup? = some entry → entry.second = some r →
    T.client r = T.sender k ∧ entry.IsFor r
  skipped : ∀ j, s.completion j = .skipped →
    Cancelled T s (T.target j) ∨ Completing T s (T.target j)

end Definitions

section Steps

theorem outstanding_next (he : T.Enabled s e) (h : Outstanding T (T.next s e) r) :
    Outstanding T s r ∨ e = .lockInsert r := by
  obtain ⟨hbegun, herased, hcaptured⟩ := h
  by_cases hidle : s.process r = .idle
  · rcases T.process_next s e r with hnext | rfl | rfl | rfl | rfl | rfl | rfl | rfl
    · exact absurd (hnext.trans hidle) hbegun
    · exact .inr rfl
    all_goals simp [Traffic.Enabled, hidle] at he
  · refine .inl ⟨hidle, fun j hj hold => herased j hj (erased_mono he hold), fun k hold => ?_⟩
    exact hcaptured k (captured_mono he hold)

theorem captured_of_entry (entry : Entry ρ) (h : (s.cancel k).lookup? = some entry)
    (hr : entry.second = some r) : s.captured k = some r := by
  rw [State.captured, h]
  exact hr

theorem completing_mono (he : T.Enabled s e) (h : ∃ j, T.target j = r ∧ Erased s j) :
    Completing T (T.next s e) r := by
  obtain ⟨j, hj, herased⟩ := h
  rcases erased_mono he herased with hj' | hj'
  · exact ⟨j, hj, .inr (.inl hj')⟩
  · exact ⟨j, hj, .inr (.inr hj')⟩

theorem taken_or_erased (hbegun : s.process r ≠ .idle) (h : ¬ Outstanding T s r) :
    (∃ k, s.captured k = some r) ∨ ∃ j, T.target j = r ∧ Erased s j := by
  by_contra hneither
  obtain ⟨hcaptured, herased⟩ := not_or.mp hneither
  refine h ⟨hbegun, fun j hj hold => herased ⟨j, hj, hold⟩, fun k hk => hcaptured ⟨k, hk⟩⟩

end Steps

section Separation
variable (hs : Locked s) (ht : Tracked T s) (h : Separated T s) (he : T.Enabled s e)
  (hg : Separate T s e)

include ht in
theorem outstanding_of_entry {key : Option κ} {entry : Entry ρ}
    (hentry : s.requests key = some entry) (hr : entry.second = some r)
    (hm : ∀ k, s.captured k = some r → s.mutex ≠ some (.cancel k)) : Outstanding T s r := by
  have hkey := ht.key key entry r hentry hr
  refine ⟨ht.begun key entry r hentry hr, fun j hj herased => ?_, fun k hk => ?_⟩
  · obtain ⟨k, hk, -⟩ := ht.live r entry (.result j) (hkey ▸ hentry) hr ⟨hj, herased⟩
    cases hk
  · obtain ⟨k', hk', hmutex⟩ := ht.live r entry (.aborted k) (hkey ▸ hentry) hr hk
    cases hk'
    exact hm k hk hmutex

include h

theorem captured_of_present {entry : Entry ρ} (hr : Outstanding T s r)
    (hk : s.cancel k = .found entry ∨ s.cancel k = .called entry) : T.victim k ≠ T.id r := by
  intro hvictim
  obtain ⟨entry', hentry', hfor⟩ := h.present r hr
  have hentry := h.holding k entry hk
  rw [hvictim, hentry'] at hentry
  obtain rfl := Option.some.inj hentry
  refine hr.2.2 k (captured_of_entry entry' ?_ hfor.1)
  rcases hk with hk | hk <;> rw [hk] <;> rfl

include he

include ht hg in
theorem own_step {key : Option κ} {entry : Entry ρ}
    (hentry : (T.next s e).requests key = some entry) (hr : entry.second = some r) :
    entry.IsFor r := by
  rcases T.requests_next s e key with hkey | ⟨r', rfl | rfl, rfl⟩ | ⟨hnone, -⟩
  · exact h.own key entry r (hkey.symm.trans hentry) hr
  · simp only [Traffic.next, Function.update_self, Option.some.injEq] at hentry
    subst hentry
    exact ⟨hr, .inl rfl⟩
  · simp only [Traffic.next, Function.update_self, Option.some.injEq] at hentry
    subst hentry
    obtain ⟨entry', hentry', hr'⟩ := Option.bind_eq_some_iff.mp hr
    have hmutex : s.mutex = none := he.1
    have houtstanding := outstanding_of_entry ht hentry' hr' fun k _ hk => by simp [hmutex] at hk
    obtain rfl := hg r (ht.key _ entry' r hentry' hr') houtstanding
    exact ⟨hr, .inr rfl⟩
  · cases hnone.symm.trans hentry

include hg in
theorem outstanding_step (hr : Outstanding T (T.next s e) r) :
    ∃ entry, (T.next s e).requests (T.id r) = some entry ∧ entry.IsFor r := by
  rcases outstanding_next he hr with hold | rfl
  · obtain ⟨entry, hentry, hfor⟩ := h.present r hold
    rcases T.requests_next s e (T.id r) with hkey | ⟨r', rfl | rfl, hr'⟩ | ⟨-, ⟨j, rfl, hj⟩ | ⟨k, rfl, hk⟩⟩
    · exact ⟨entry, hkey.trans hentry, hfor⟩
    · obtain rfl := hg r hr'.symm hold
      exact absurd he.2 hold.1
    · obtain rfl := hg r hr'.symm hold
      refine ⟨_, Function.update_self (T.id r) _ s.requests, ?_, .inr rfl⟩
      simpa [hentry] using hfor.1
    · obtain rfl := hg r hj.symm hold
      refine absurd ?_ (hr.2.1 j rfl)
      simp [Erased, Traffic.next, hentry]
    · obtain ⟨entry', hk'⟩ := called_of_eraseCancel he
      exact absurd hk (captured_of_present h hold (.inr hk'))
  · exact ⟨_, Function.update_self (T.id r) _ s.requests, rfl, .inl rfl⟩

include hs

theorem holding_step {entry : Entry ρ} (hk : (T.next s e).cancel k = .found entry ∨
    (T.next s e).cancel k = .called entry) : (T.next s e).requests (T.victim k) = some entry := by
  -- the mutex is the notification's, so nobody else has touched the table
  have hkeep (hold : s.cancel k = .found entry ∨ s.cancel k = .called entry)
      (hmine : e ≠ .eraseCancel k) : (T.next s e).requests (T.victim k) = some entry := by
    have hmutex : s.mutex = some (.cancel k) := by
      apply (hs.cancel k).mp
      rcases hold with hold | hold <;> rw [hold] <;> rfl
    rcases T.requests_next s e (T.victim k) with hkey | ⟨r, rfl | rfl, -⟩ |
      ⟨-, ⟨j, rfl, -⟩ | ⟨k', rfl, -⟩⟩
    · exact hkey.trans (h.holding k entry hold)
    · cases he.1.symm.trans hmutex
    · cases he.1.symm.trans hmutex
    · cases ((hs.skip j).mp he).symm.trans hmutex
    · obtain ⟨entry', hk'⟩ := called_of_eraseCancel he
      have hmutex' := (hs.cancel k').mp (by rw [hk']; rfl)
      obtain ⟨rfl⟩ := Option.some.inj (hmutex'.symm.trans hmutex)
      exact absurd rfl hmine
  rcases T.cancel_next s e k with hnext | rfl | rfl | rfl | rfl | rfl
  · rw [hnext] at hk
    apply hkeep hk
    rintro rfl
    obtain ⟨entry', hk'⟩ := called_of_eraseCancel he
    simp [Traffic.next, hk'] at hnext
  · simp [Traffic.next] at hk
  · simp only [Traffic.next] at hk ⊢
    split at hk <;> simp_all
  · obtain ⟨entry', hk'⟩ := found_of_callCancel he
    have hsame : entry' = entry := by simpa [Traffic.next, hk'] using hk
    exact hkeep (.inl (hsame ▸ hk')) (by simp)
  · obtain ⟨entry', hk', -⟩ := called_of_unwind he
    simp [Traffic.next, hk'] at hk
  · obtain ⟨entry', hk'⟩ := called_of_eraseCancel he
    simp [Traffic.next, hk'] at hk

include ht hg in
theorem captured_step {entry : Entry ρ} (hk : ((T.next s e).cancel k).lookup? = some entry)
    (hr : entry.second = some r) : T.client r = T.sender k ∧ entry.IsFor r := by
  rcases lookup?_next he k with hsame | ⟨rfl, hnone, hfound⟩
  · exact h.captured k entry r (hsame.symm.trans hk) hr
  · have hentry := hfound.symm.trans hk
    have hmutex := hs.mutex_of_locked he
    have houtstanding : Outstanding T s r := by
      refine outstanding_of_entry ht hentry hr fun k' hk' hmutex' => ?_
      obtain ⟨rfl⟩ := Option.some.inj (hmutex.symm.trans hmutex')
      simp [State.captured, hnone] at hk'
    exact ⟨hg r (ht.key _ entry r hentry hr) houtstanding, h.own _ entry r hentry hr⟩

include ht

/-- A request that has begun and is not outstanding any more. -/
theorem settled_next (hbegun : s.process r ≠ .idle) (hr : ¬ Outstanding T s r) :
    Cancelled T (T.next s e) r ∨ Completing T (T.next s e) r := by
  rcases taken_or_erased hbegun hr with ⟨k, hk⟩ | herased
  · obtain ⟨entry, hentry, hentryr⟩ := Option.bind_eq_some_iff.mp hk
    have hsender := (h.captured k entry r hentry hentryr).1
    exact .inl ⟨k, hsender.symm, (ht.victim k r hk).symm, .inl (captured_mono he hk)⟩
  · exact .inr (completing_mono he herased)

theorem cancelled_step (hbegun : s.process r ≠ .idle) (hr : Cancelled T s r) :
    Cancelled T (T.next s e) r ∨ Completing T (T.next s e) r := by
  obtain ⟨k, hsender, hvictim, hk | hmutex⟩ := hr
  · exact .inl ⟨k, hsender, hvictim, .inl (captured_mono he hk)⟩
  · by_cases houtstanding : Outstanding T s r
    · rcases held_next hs he hmutex with hheld | rfl | rfl | rfl
      · exact .inl ⟨k, hsender, hvictim, .inr hheld⟩
      · obtain ⟨entry, hentry, hfor⟩ := h.present r houtstanding
        refine .inl ⟨k, hsender, hvictim, .inl (captured_of_entry entry ?_ hfor.1)⟩
        simp [Traffic.next, hvictim, hentry, CancelPhase.lookup?]
      · obtain ⟨entry, hcalled, -⟩ := called_of_unwind he
        exact absurd hvictim (captured_of_present h houtstanding (.inr hcalled))
      · obtain ⟨entry, hcalled⟩ := called_of_eraseCancel he
        exact absurd hvictim (captured_of_present h houtstanding (.inr hcalled))
    · exact settled_next hs ht h he hbegun houtstanding

theorem completing_step (hr : Completing T s r) :
    Cancelled T (T.next s e) r ∨ Completing T (T.next s e) r := by
  obtain ⟨j, rfl, hlocked | herased⟩ := hr
  · rcases T.completion_next s e j with hnext | rfl | rfl | rfl
    · exact .inr ⟨j, rfl, .inl (hnext.trans hlocked)⟩
    · cases he.1.symm.trans hlocked
    · by_cases hentry : s.requests (T.id (T.target j)) = none
      · apply settled_next hs ht h he (ht.started j (by simp [hlocked]))
        intro houtstanding
        obtain ⟨entry, hentry', -⟩ := h.present _ houtstanding
        cases hentry.symm.trans hentry'
      · exact .inr ⟨j, rfl, .inr (.inl (by simp [Traffic.next, hentry]))⟩
    · cases Eq.trans (Eq.symm he) hlocked
  · exact .inr (completing_mono he ⟨j, rfl, herased⟩)

include hg

theorem skipped_step (hj : (T.next s e).completion j = .skipped) :
    Cancelled T (T.next s e) (T.target j) ∨ Completing T (T.next s e) (T.target j) := by
  have hcarry (hbegun : s.process (T.target j) ≠ .idle)
      (hold : Cancelled T s (T.target j) ∨ Completing T s (T.target j)) :
      Cancelled T (T.next s e) (T.target j) ∨ Completing T (T.next s e) (T.target j) := by
    rcases hold with hold | hold
    · exact cancelled_step hs ht h he hbegun hold
    · exact completing_step hs ht h he hold
  rcases T.completion_next s e j with hnext | rfl | rfl | rfl
  · have hskipped := hnext.symm.trans hj
    exact hcarry (ht.started j (by simp [hskipped])) (h.skipped j hskipped)
  · have hbegun : s.process (T.target j) ≠ .idle := by
      have hcalled := he.2
      intro hidle
      simp [State.isCalled, hidle] at hcalled
    by_cases houtstanding : Outstanding T s (T.target j)
    · have hmutex : s.mutex ≠ none := by
        intro hfree
        simp [Traffic.next, hfree] at hj
      apply hcarry hbegun
      rcases hg hmutex houtstanding with hcancelled | ⟨j', hj', hskip⟩
      · exact .inl hcancelled
      · exact .inr ⟨j', hj', .inl ((hs.skip j').mpr hskip)⟩
    · exact settled_next hs ht h he hbegun houtstanding
  · have hlocked : s.completion j = .locked := he
    exact hcarry (ht.started j (by simp [hlocked])) (.inr ⟨j, rfl, .inl hlocked⟩)
  · simp [Traffic.next] at hj

theorem separated_step : Separated T (T.next s e) where
  own _ _ _ hentry hr := own_step ht h he hg hentry hr
  present _ hr := outstanding_step h he hg hr
  holding _ _ hk := holding_step hs h he hk
  captured _ _ _ hk hr := captured_step hs ht h he hg hk hr
  skipped _ hj := skipped_step hs ht h he hg hj

end Separation

section Independence
variable {es : List (Event ρ ι θ δ)}

theorem separated_initial : Separated T State.initial where
  own := nofun
  present _ hr := absurd rfl hr.1
  holding := by rintro k entry (hk | hk) <;> cases hk
  captured := nofun
  skipped := nofun

/-- Under the guard a completion that is not cancelled is answered with a result of its own
action, and cancel notifications abort requests of their own clients only: those whose
respond callback and whose cancel function they have found. -/
theorem requests_independent (h : T.machine.Guarded (Separate T) es s) :
    (∀ j, s.completion j = .responded ∨ s.completion j = .skipped →
        ¬ Cancelled T s (T.target j) → ∃ j', T.target j' = T.target j ∧
          (.result j' ∈ s.answered (T.target j) ∨ s.completion j' = .locked ∨
            s.completion j' = .erased)) ∧
      (∀ r j, .result j ∈ s.answered r → T.target j = r) ∧
      (∀ r k, .aborted k ∈ s.answered r → T.client r = T.sender k ∧ T.id r = T.victim k) ∧
      ∀ k entry r, (s.cancel k).lookup? = some entry → entry.second ≠ none →
        entry.first = .action r → T.client r = T.sender k ∧ T.id r = T.victim k := by
  have hinvariant : (Locked s ∧ Tracked T s) ∧ Separated T s :=
    h.invariant (I := fun s => (Locked s ∧ Tracked T s) ∧ Separated T s)
      ⟨⟨locked_initial, tracked_initial⟩, separated_initial⟩
      fun _ _ ⟨⟨hs, ht⟩, h⟩ he hg =>
        ⟨⟨locked_step hs he, tracked_step hs ht he⟩, separated_step hs ht h he hg⟩
  obtain ⟨⟨-, htracked⟩, hseparated⟩ := hinvariant
  have hcaptured (k : θ) (entry : Entry ρ) (r : ρ) (hk : (s.cancel k).lookup? = some entry)
      (hr : entry.second = some r) : T.client r = T.sender k ∧ T.id r = T.victim k :=
    ⟨(hseparated.captured k entry r hk hr).1, htracked.victim k r (captured_of_entry entry hk hr)⟩
  refine ⟨?_, ?_, ?_, ?_⟩
  · intro j hj huncancelled
    rcases hj with hresponded | hskipped
    · exact ⟨j, rfl, .inl (htracked.responded j hresponded)⟩
    · rcases hseparated.skipped j hskipped with hcancelled | ⟨j', hj', hlocked | herased | hdone⟩
      · exact absurd hcancelled huncancelled
      · exact ⟨j', hj', .inr (.inl hlocked)⟩
      · exact ⟨j', hj', .inr (.inr herased)⟩
      · exact ⟨j', hj', .inl (hj' ▸ htracked.responded j' hdone)⟩
  · intro r j hj
    exact (htracked.replied r (.result j) hj).1
  · intro r k hk
    obtain ⟨entry, hentry, hr⟩ := Option.bind_eq_some_iff.mp (htracked.replied r (.aborted k) hk)
    exact hcaptured k entry r hentry hr
  · intro k entry r hk hsecond hfirst
    obtain ⟨r', hr'⟩ := Option.ne_none_iff_exists'.mp hsecond
    obtain ⟨-, hfor⟩ := hseparated.captured k entry r' hk hr'
    rcases hfor.2 with htemporary | haction
    · exact absurd (htemporary.symm.trans hfirst) nofun
    · rw [← CancelFunc.action.inj (haction.symm.trans hfirst)]
      exact hcaptured k entry r' hk hr'

/-- Requests of two clients that both number theirs from 0, each with one response callback
and one cancel notification. -/
def twoClients : Traffic (Fin 2) (Fin 2) (Fin 2) (Fin 2) (Fin 2) where
  id _ := some 0
  client r := r
  target j := j
  victim _ := some 0
  sender k := k
  cause d := d

instance [Fintype ι] [Fintype θ] (r : ρ) : Decidable (Outstanding T s r) :=
  inferInstanceAs (Decidable (_ ∧ (∀ _, _ → ¬ (_ ∨ _)) ∧ ∀ _, _))

instance [Fintype ι] [Fintype θ] [Fintype ρ] (r : ρ) : Decidable (Alone T s r) :=
  inferInstanceAs (Decidable (∀ _, _))

instance [Fintype θ] (r : ρ) : Decidable (Cancelled T s r) := inferInstanceAs (Decidable (∃ _, _))

instance [Fintype ι] (r : ρ) : Decidable (BeingCompleted T s r) :=
  inferInstanceAs (Decidable (∃ _, _))

instance [Fintype ι] [Fintype θ] [Fintype ρ] (e : Event ρ ι θ δ) : Decidable (Separate T s e) :=
  match e with
  | .lockInsert r | .lockStore r => inferInstanceAs (Decidable (Alone T s r))
  | .tryLock _ => inferInstanceAs (Decidable (_ → _ → _))
  | .erase j => inferInstanceAs (Decidable (Alone T s (T.target j)))
  | .find _ => inferInstanceAs (Decidable (∀ _, _))
  | .unlockInsert _ | .callAction _ | .returnAction _ _ | .unlockStore _ | .respond _
  | .lockCancel _ | .callCancel _ | .unwind _ | .eraseCancel _ | .done _ => isTrue trivial

/-- The second client's request starts after the first one's has completed. -/
def successiveRequests : List (Event (Fin 2) (Fin 2) (Fin 2) (Fin 2)) :=
  [.lockInsert 0, .unlockInsert 0, .callAction 0, .returnAction 0 false, .tryLock 0, .erase 0,
    .respond 0, .lockInsert 1, .unlockInsert 1, .callAction 1, .returnAction 1 true, .lockStore 1,
    .unlockStore 1, .lockCancel 1, .find 1, .callCancel 1, .done 1, .eraseCancel 1]

theorem successiveRequests_independent :
    ∃ s, twoClients.machine.Guarded (Separate twoClients) successiveRequests s ∧
      (∃ j', twoClients.target j' = 0 ∧ (.result j' ∈ s.answered 0 ∨ s.completion j' = .locked ∨
        s.completion j' = .erased)) ∧
      s.answered 0 = [.result 0] ∧ s.answered 1 = [.aborted 1] := by
  have hrun := Machine.Path.of_isSome (M := twoClients.machine) (G := Separate twoClients)
    twoClients.machine.init successiveRequests (by decide)
  exact ⟨_, hrun, (requests_independent hrun).1 0 (by decide) (by decide), by decide, by decide⟩

/-- Both requests are outstanding at the same time; the completion of the first one erases
the entry of the second. -/
def overlappingRequests : List (Event (Fin 2) (Fin 2) (Fin 2) (Fin 2)) :=
  [.lockInsert 0, .unlockInsert 0, .callAction 0, .returnAction 0 false, .lockInsert 1,
    .unlockInsert 1, .callAction 1, .returnAction 1 false, .tryLock 0, .erase 0, .respond 0,
    .tryLock 1, .erase 1]

theorem overlappingRequests_suppressed :
    ¬ ∀ (T : Traffic (Fin 2) (Fin 2) (Fin 2) (Fin 2) (Fin 2))
      (es : List (Event (Fin 2) (Fin 2) (Fin 2) (Fin 2))) (s : State _ _ _ _ _),
      (∀ r r', T.client r = T.client r' → T.id r = T.id r' → r = r') →
      Function.Injective T.target → Function.Injective T.cause → T.machine.Run es s →
        ∀ j, s.completion j = .responded ∨ s.completion j = .skipped →
          ¬ Cancelled T s (T.target j) → .result j ∈ s.answered (T.target j) := by
  intro hall
  have hrun := Machine.Path.of_isSome (M := twoClients.machine) (G := fun _ _ => True)
    twoClients.machine.init overlappingRequests (by decide)
  have hclients (r r' : Fin 2) (h : twoClients.client r = twoClients.client r')
      (_ : twoClients.id r = twoClients.id r') : r = r' := Fin.ext h
  have hanswered := hall twoClients _ _ hclients Function.injective_id Function.injective_id hrun 1
    (by decide) (by decide)
  exact absurd hanswered (by decide)

end Independence

end Rockets.JsonRpc.Cancellable
