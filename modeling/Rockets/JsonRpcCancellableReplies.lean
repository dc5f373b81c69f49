import Rockets.JsonRpcCancellable

set_option autoImplicit false
set_option linter.unusedSectionVars false

/-!
# Replies to cancellable requests

Who may answer a request, over all interleavings.
-/
namespace Rockets.JsonRpc.Cancellable
open Function (update)
variable {κ ρ ι θ δ : Type} [DecidableEq κ] [DecidableEq ρ] [DecidableEq ι] [DecidableEq θ]
  [DecidableEq δ] {T : Traffic κ ρ ι θ δ} {s : State κ ρ ι θ δ} {e : Event ρ ι θ δ}
  {k : θ} {r : ρ} {j : ι} {p : Reply ι θ}

section Mutex

def CancelPhase.holds : CancelPhase ρ → Bool
  | locked | found _ | called _ => true
  | _ => false

/-- Whoever is in a locked scope is the holder of the mutex. -/
structure Locked (s : State κ ρ ι θ δ) : Prop where
  insert : ∀ r, s.process r = .inserting → s.mutex = some (.insert r)
  store : ∀ r, s.process r = .storing → s.mutex = some (.store r)
  skip : ∀ j, s.completion j = .locked ↔ s.mutex = some (.skip j)
  cancel : ∀ k, (s.cancel k).holds = true ↔ s.mutex = some (.cancel k)

theorem locked_initial : Locked (State.initial : State κ ρ ι θ δ) where
  insert := nofun
  store := nofun
  skip _ := ⟨nofun, nofun⟩
  cancel _ := ⟨nofun, nofun⟩

theorem Locked.mutex_of_locked (hs : Locked s) (h : s.cancel k = .locked) :
    s.mutex = some (.cancel k) :=
  (hs.cancel k).mp (by rw [h]; rfl)

/-- The phase of one request and the mutex, as far as it concerns that request, change. -/
theorem Locked.setProcess (h : Locked s) {s' : State κ ρ ι θ δ} (r : ρ) (phase : ProcessPhase)
    (hprocess : s'.process = update s.process r phase) (hcompletion : s'.completion = s.completion)
    (hcancel : s'.cancel = s.cancel)
    (hmutex : ∀ x, x ≠ .insert r → x ≠ .store r → (s'.mutex = some x ↔ s.mutex = some x))
    (hinsert : phase = .inserting → s'.mutex = some (.insert r))
    (hstore : phase = .storing → s'.mutex = some (.store r)) : Locked s' where
  insert q hq := by
    rw [hprocess, Function.update_apply] at hq
    split_ifs at hq with hqr
    · exact hqr ▸ hinsert hq
    · exact (hmutex (.insert q) (by simpa using hqr) nofun).mpr (h.insert q hq)
  store q hq := by
    rw [hprocess, Function.update_apply] at hq
    split_ifs at hq with hqr
    · exact hqr ▸ hstore hq
    · exact (hmutex (.store q) nofun (by simpa using hqr)).mpr (h.store q hq)
  skip j := by rw [hcompletion, hmutex (.skip j) nofun nofun, h.skip j]
  cancel k := by rw [hcancel, hmutex (.cancel k) nofun nofun, h.cancel k]

theorem Locked.setCompletion (h : Locked s) {s' : State κ ρ ι θ δ} (j : ι)
    (phase : CompletionPhase) (hprocess : s'.process = s.process)
    (hcompletion : s'.completion = update s.completion j phase) (hcancel : s'.cancel = s.cancel)
    (hmutex : ∀ x, x ≠ .skip j → (s'.mutex = some x ↔ s.mutex = some x))
    (hskip : phase = .locked ↔ s'.mutex = some (.skip j)) : Locked s' where
  insert q hq := (hmutex (.insert q) nofun).mpr (h.insert q (hprocess ▸ hq))
  store q hq := (hmutex (.store q) nofun).mpr (h.store q (hprocess ▸ hq))
  skip i := by
    rw [hcompletion, Function.update_apply]
    split_ifs with hij
    · rw [hskip, hij]
    · rw [hmutex (.skip i) (by simpa using hij), h.skip i]
  cancel k := by rw [hcancel, hmutex (.cancel k) nofun, h.cancel k]

theorem Locked.setCancel (h : Locked s) {s' : State κ ρ ι θ δ} (k : θ) (phase : CancelPhase ρ)
    (hprocess : s'.process = s.process) (hcompletion : s'.completion = s.completion)
    (hcancel : s'.cancel = update s.cancel k phase)
    (hmutex : ∀ x, x ≠ .cancel k → (s'.mutex = some x ↔ s.mutex = some x))
    (hholds : phase.holds = true ↔ s'.mutex = some (.cancel k)) : Locked s' where
  insert q hq := (hmutex (.insert q) nofun).mpr (h.insert q (hprocess ▸ hq))
  store q hq := (hmutex (.store q) nofun).mpr (h.store q (hprocess ▸ hq))
  skip j := by rw [hcompletion, hmutex (.skip j) nofun, h.skip j]
  cancel i := by
    rw [hcancel, Function.update_apply]
    split_ifs with hik
    · rw [hholds, hik]
    · rw [hmutex (.cancel i) (by simpa using hik), h.cancel i]

theorem mutex_take {s' : State κ ρ ι θ δ} {y x : Holder ρ ι θ} (hfree : s.mutex = none)
    (hy : s'.mutex = some y) (hx : x ≠ y) : s'.mutex = some x ↔ s.mutex = some x := by
  simp [hfree, hy, hx.symm]

theorem mutex_release {s' : State κ ρ ι θ δ} {y x : Holder ρ ι θ} (hy : s.mutex = some y)
    (hfree : s'.mutex = none) (hx : x ≠ y) : s'.mutex = some x ↔ s.mutex = some x := by
  simp [hfree, hy, hx.symm]

theorem found_of_callCancel (he : T.Enabled s (.callCancel k)) :
    ∃ entry, s.cancel k = .found entry := by
  have hfound : (s.cancel k).isFound = true := he
  cases hk : s.cancel k with
  | found entry => exact ⟨entry, rfl⟩
  | _ =>
    rw [hk] at hfound
    cases hfound

theorem called_of_unwind (he : T.Enabled s (.unwind k)) :
    ∃ entry, s.cancel k = .called entry ∧ entry.second = none := by
  have hthrowing : (s.cancel k).isThrowing = true := he
  cases hk : s.cancel k with
  | called entry =>
    rw [hk] at hthrowing
    exact ⟨entry, rfl, Option.isNone_iff_eq_none.mp hthrowing⟩
  | _ =>
    rw [hk] at hthrowing
    cases hthrowing

theorem called_of_eraseCancel (he : T.Enabled s (.eraseCancel k)) :
    ∃ entry, s.cancel k = .called entry := by
  have hreturning : (s.cancel k).isReturning = true := he
  cases hk : s.cancel k with
  | called entry => exact ⟨entry, rfl⟩
  | _ =>
    rw [hk] at hreturning
    cases hreturning

theorem locked_step (h : Locked s) (he : T.Enabled s e) : Locked (T.next s e) := by
  cases e with
  | lockInsert r =>
    exact h.setProcess r .inserting rfl rfl rfl (fun x hx _ => mutex_take he.1 rfl hx)
      (fun _ => rfl) (by simp)
  | unlockInsert r =>
    exact h.setProcess r .inserted rfl rfl rfl
      (fun x hx _ => mutex_release (h.insert r he) rfl hx) (by simp) (by simp)
  | callAction r => exact h.setProcess r .called rfl rfl rfl (fun _ _ _ => Iff.rfl) (by simp) (by simp)
  | returnAction r cancelFunc =>
    refine h.setProcess r _ rfl rfl rfl (fun _ _ _ => Iff.rfl) ?_ ?_ <;>
      split_ifs <;> simp
  | lockStore r =>
    exact h.setProcess r .storing rfl rfl rfl (fun x _ hx => mutex_take he.1 rfl hx) (by simp)
      fun _ => rfl
  | unlockStore r =>
    exact h.setProcess r .finished rfl rfl rfl
      (fun x _ hx => mutex_release (h.store r he) rfl hx) (by simp) (by simp)
  | tryLock j =>
    simp only [Traffic.next]
    split_ifs with hfree
    · exact h.setCompletion j .locked rfl rfl rfl (fun x hx => mutex_take hfree rfl hx)
        (iff_of_true rfl rfl)
    · refine h.setCompletion j .skipped rfl rfl rfl (fun _ _ => Iff.rfl) (iff_of_false (by simp) ?_)
      intro hmutex
      cases he.1.symm.trans ((h.skip j).mpr hmutex)
  | erase j =>
    have hmutex := (h.skip j).mp he
    simp only [Traffic.next]
    split_ifs
    · exact h.setCompletion j .skipped rfl rfl rfl (fun x hx => mutex_release hmutex rfl hx)
        (iff_of_false (by simp) (by simp))
    · exact h.setCompletion j .erased rfl rfl rfl (fun x hx => mutex_release hmutex rfl hx)
        (iff_of_false (by simp) (by simp))
  | respond j =>
    refine h.setCompletion j .responded rfl rfl rfl (fun _ _ => Iff.rfl) (iff_of_false (by simp) ?_)
    intro hmutex
    cases he.symm.trans ((h.skip j).mpr hmutex)
  | lockCancel k =>
    exact h.setCancel k .locked rfl rfl rfl (fun x hx => mutex_take he.1 rfl hx)
      (iff_of_true rfl rfl)
  | find k =>
    have hmutex := h.mutex_of_locked he
    simp only [Traffic.next]
    split
    · exact h.setCancel k .missed rfl rfl rfl (fun x hx => mutex_release hmutex rfl hx)
        (iff_of_false (by simp [CancelPhase.holds]) (by simp))
    · exact h.setCancel k (.found _) rfl rfl rfl (fun _ _ => Iff.rfl) (iff_of_true rfl hmutex)
  | callCancel k =>
    obtain ⟨e, hk⟩ := found_of_callCancel he
    have hmutex := (h.cancel k).mp (by rw [hk]; rfl)
    simp only [Traffic.next, hk]
    exact h.setCancel k (.called e) rfl rfl rfl (fun _ _ => Iff.rfl) (iff_of_true rfl hmutex)
  | done d => exact ⟨h.insert, h.store, h.skip, h.cancel⟩
  | unwind k =>
    obtain ⟨e, hk, -⟩ := called_of_unwind he
    have hmutex := (h.cancel k).mp (by rw [hk]; rfl)
    simp only [Traffic.next, hk]
    exact h.setCancel k (.unwound e) rfl rfl rfl (fun x hx => mutex_release hmutex rfl hx)
      (iff_of_false (by simp [CancelPhase.holds]) (by simp))
  | eraseCancel k =>
    obtain ⟨e, hk⟩ := called_of_eraseCancel he
    have hmutex := (h.cancel k).mp (by rw [hk]; rfl)
    simp only [Traffic.next, hk]
    exact h.setCancel k (.erased e) rfl rfl rfl (fun x hx => mutex_release hmutex rfl hx)
      (iff_of_false (by simp [CancelPhase.holds]) (by simp))

end Mutex

section Steps

theorem lookup?_next (he : T.Enabled s e) (k : θ) :
    ((T.next s e).cancel k).lookup? = (s.cancel k).lookup? ∨
      e = .find k ∧ (s.cancel k).lookup? = none ∧
        ((T.next s e).cancel k).lookup? = s.requests (T.victim k) := by
  rcases T.cancel_next s e k with h | rfl | rfl | rfl | rfl | rfl
  · rw [h]
    exact .inl rfl
  · have hidle := he.2
    left
    simp only [Traffic.next, Function.update_self, hidle]
    rfl
  · have hlocked : s.cancel k = .locked := he
    right
    refine ⟨rfl, by rw [hlocked]; rfl, ?_⟩
    simp only [Traffic.next]
    split <;> rename_i hf <;> simp only [Function.update_self, hf] <;> rfl
  all_goals
    left
    simp only [Traffic.next]
    split
    · rename_i hk
      simp only [Function.update_self, hk]
      rfl
    · rfl

theorem captured_next (he : T.Enabled s e) (h : (T.next s e).captured k = some r) :
    s.captured k = some r ∨ e = .find k ∧ s.captured k = none ∧
      ∃ entry, s.requests (T.victim k) = some entry ∧ entry.second = some r := by
  unfold State.captured at h ⊢
  rcases lookup?_next he k with hk | ⟨rfl, hnone, hk⟩
  · rw [hk] at h
    exact .inl h
  · rw [hk] at h
    obtain ⟨entry, hentry, hr⟩ := Option.bind_eq_some_iff.mp h
    exact .inr ⟨rfl, by rw [hnone]; rfl, entry, hentry, hr⟩

theorem lookup?_mono (he : T.Enabled s e) {entry : Entry ρ}
    (h : (s.cancel k).lookup? = some entry) : ((T.next s e).cancel k).lookup? = some entry := by
  rcases lookup?_next he k with hk | ⟨-, hnone, -⟩
  · exact hk.trans h
  · exact absurd (hnone.symm.trans h) nofun

theorem captured_mono (he : T.Enabled s e) (h : s.captured k = some r) :
    (T.next s e).captured k = some r := by
  obtain ⟨entry, hentry, hr⟩ := Option.bind_eq_some_iff.mp h
  exact Option.bind_eq_some_iff.mpr ⟨entry, lookup?_mono he hentry, hr⟩

/-- A response callback has taken the entry of its request out of the table. -/
def Erased (s : State κ ρ ι θ δ) (j : ι) : Prop :=
  s.completion j = .erased ∨ s.completion j = .responded

theorem erased_next (he : T.Enabled s e) (h : Erased (T.next s e) j) :
    Erased s j ∨ e = .erase j ∧ s.requests (T.id (T.target j)) ≠ none := by
  unfold Erased at h ⊢
  rcases T.completion_next s e j with hj | rfl | rfl | rfl
  · rw [hj] at h
    exact .inl h
  · simp only [Traffic.next] at h
    split_ifs at h <;> simp [Function.update_self] at h
  · simp only [Traffic.next] at h
    split_ifs at h with habsent
    · simp [Function.update_self] at h
    · exact .inr ⟨rfl, habsent⟩
  · exact .inl (.inl he)

theorem erased_mono (he : T.Enabled s e) (h : Erased s j) : Erased (T.next s e) j := by
  unfold Erased at h ⊢
  rcases T.completion_next s e j with hj | rfl | rfl | rfl
  · rwa [hj]
  · simp [he.1] at h
  · have hlocked : s.completion j = .locked := he
    simp [hlocked] at h
  · exact .inr (Function.update_self _ _ _)

/-- Entries with a respond callback are only made by the request itself. -/
theorem entry_next {key : Option κ} {entry : Entry ρ}
    (h : (T.next s e).requests key = some entry) (hr : entry.second = some r) :
    (∃ entry', s.requests key = some entry' ∧ entry'.second = some r) ∨
      e = .lockInsert r ∧ T.id r = key := by
  rcases T.requests_next s e key with hkey | ⟨r', rfl | rfl, rfl⟩ | ⟨hnone, -⟩
  · exact .inl ⟨entry, hkey.symm.trans h, hr⟩
  · simp only [Traffic.next, Function.update_self, Option.some.injEq] at h
    subst h
    obtain rfl : r' = r := Option.some.inj hr
    exact .inr ⟨rfl, rfl⟩
  · simp only [Traffic.next, Function.update_self, Option.some.injEq] at h
    subst h
    exact .inl (Option.bind_eq_some_iff.mp hr)
  · cases hnone.symm.trans h

theorem absent_next {key : Option κ} (h : s.requests key = none) :
    (T.next s e).requests key = none ∨
      ∃ r, (e = .lockInsert r ∨ e = .lockStore r) ∧ T.id r = key := by
  rcases T.requests_next s e key with hkey | hmade | ⟨hnone, -⟩
  · exact .inl (hkey.trans h)
  · exact .inr hmade
  · exact .inl hnone

/-- An entry only disappears when a response callback or a cancel notification erases it. -/
theorem kept_next {key : Option κ} (h : s.requests key ≠ none) :
    (T.next s e).requests key ≠ none ∨ (∃ j, e = .erase j ∧ T.id (T.target j) = key) ∨
      ∃ k, e = .eraseCancel k ∧ T.victim k = key := by
  rcases T.requests_next s e key with hkey | ⟨r, rfl | rfl, rfl⟩ | ⟨-, herased⟩
  · exact .inl (hkey ▸ h)
  · exact .inl (by simp [Traffic.next, Function.update_self])
  · exact .inl (by simp [Traffic.next, Function.update_self])
  · exact .inr herased

theorem begun_next (he : T.Enabled s e) (h : s.process r ≠ .idle) :
    (T.next s e).process r ≠ .idle := by
  rcases T.process_next s e r with hr | rfl | rfl | rfl | rfl | rfl | rfl | rfl
  · exact hr ▸ h
  · exact absurd he.2 h
  all_goals simp [Traffic.next]

theorem held_next (hs : Locked s) (he : T.Enabled s e) (h : s.mutex = some (.cancel k)) :
    (T.next s e).mutex = some (.cancel k) ∨ e = .find k ∨ e = .unwind k ∨ e = .eraseCancel k := by
  have hholder {x : Holder ρ ι θ} (hx : s.mutex = some x) : x = .cancel k :=
    Option.some.inj (hx.symm.trans h)
  cases e with
  | lockInsert r => exact absurd (h.symm.trans he.1) nofun
  | lockStore r => exact absurd (h.symm.trans he.1) nofun
  | lockCancel i => exact absurd (h.symm.trans he.1) nofun
  | unlockInsert r => exact absurd (hholder (hs.insert r he)) nofun
  | unlockStore r => exact absurd (hholder (hs.store r he)) nofun
  | erase j => exact absurd (hholder ((hs.skip j).mp he)) nofun
  | callAction r => exact .inl h
  | returnAction r cancelFunc => exact .inl h
  | respond j => exact .inl h
  | done d => exact .inl h
  | tryLock j =>
    left
    simp only [Traffic.next, h, reduceCtorEq, if_false]
  | find i =>
    obtain rfl : i = k := by simpa using hholder (hs.mutex_of_locked he)
    exact .inr (.inl rfl)
  | callCancel i =>
    obtain ⟨e, hi⟩ := found_of_callCancel he
    simp only [Traffic.next, hi]
    exact .inl h
  | unwind i =>
    obtain ⟨e, hi, -⟩ := called_of_unwind he
    obtain rfl : i = k := by simpa using hholder ((hs.cancel i).mp (by rw [hi]; rfl))
    exact .inr (.inr (.inl rfl))
  | eraseCancel i =>
    obtain ⟨e, hi⟩ := called_of_eraseCancel he
    obtain rfl : i = k := by simpa using hholder ((hs.cancel i).mp (by rw [hi]; rfl))
    exact .inr (.inr (.inr rfl))

/-- How `processCancel` gives the lock back. -/
theorem released_next (hs : Locked s) (he : T.Enabled s e) (h : s.mutex = some (.cancel k)) :
    (T.next s e).mutex = some (.cancel k) ∨ (T.next s e).captured k = none ∨
      (T.next s e).requests (T.victim k) = none := by
  rcases held_next hs he h with hheld | rfl | rfl | rfl
  · exact .inl hheld
  · simp only [Traffic.next]
    split
    · exact .inr (.inl (by simp [State.captured, CancelPhase.lookup?]))
    · exact .inl h
  · obtain ⟨e, hk, hempty⟩ := called_of_unwind he
    simp only [Traffic.next, hk]
    exact .inr (.inl (by simp [State.captured, CancelPhase.lookup?, hempty]))
  · obtain ⟨e, hk⟩ := called_of_eraseCancel he
    simp only [Traffic.next, hk]
    exact .inr (.inr (by simp))

end Steps

/-- A reply that somebody has the right to send to a request, having taken its entry. -/
def Entitled (T : Traffic κ ρ ι θ δ) (s : State κ ρ ι θ δ) (r : ρ) : Reply ι θ → Prop
  | .result j => T.target j = r ∧ Erased s j
  | .aborted k => s.captured k = some r

/-- The reply has been sent. -/
def Spent (T : Traffic κ ρ ι θ δ) (s : State κ ρ ι θ δ) : Reply ι θ → Prop
  | .result j => s.completion j = .responded
  | .aborted k => ∃ entry, (s.cancel k).lookup? = some entry ∧ s.cancel k ≠ .found entry ∧
      (entry.first = .temporary ∨ ∃ d, T.cause d = k ∧ s.fired d = true)

/-- Whom the entries in the table belong to. -/
structure Tracked (T : Traffic κ ρ ι θ δ) (s : State κ ρ ι θ δ) : Prop where
  key : ∀ key entry r, s.requests key = some entry → entry.second = some r → T.id r = key
  victim : ∀ k r, s.captured k = some r → T.id r = T.victim k
  begun : ∀ key entry r, s.requests key = some entry → entry.second = some r →
    s.process r ≠ .idle
  started : ∀ j, s.completion j ≠ .idle → s.process (T.target j) ≠ .idle
  entitled : ∀ r p, Entitled T s r p → s.process r ≠ .idle
  live : ∀ r entry p, s.requests (T.id r) = some entry → entry.second = some r →
    Entitled T s r p → ∃ k, p = .aborted k ∧ s.mutex = some (.cancel k)
  replied : ∀ r p, p ∈ s.answered r → Entitled T s r p
  responded : ∀ j, s.completion j = .responded → .result j ∈ s.answered (T.target j)

/-- Each request has one owner: its entry, the response callback that erased the entry, or
the cancel notification that found it. -/
structure Owned (T : Traffic κ ρ ι θ δ) (s : State κ ρ ι θ δ) : Prop extends Tracked T s where
  gone : ∀ k r, s.captured k = some r → s.mutex ≠ some (.cancel k) → s.requests (T.id r) = none
  unique : ∀ r p q, Entitled T s r p → Entitled T s r q → p = q
  spent : ∀ r p, p ∈ s.answered r → Spent T s p
  nodup : ∀ r, (s.answered r).Nodup

section Tracking

theorem entitled_mono (he : T.Enabled s e) (h : Entitled T s r p) :
    Entitled T (T.next s e) r p := by
  cases p with
  | result j => exact ⟨h.1, erased_mono he h.2⟩
  | aborted k => exact captured_mono he h

/-- Nobody becomes entitled to a request but the one who takes its entry. -/
theorem entitled_next (he : T.Enabled s e) (h : Entitled T (T.next s e) r p) :
    Entitled T s r p ∨ (∃ j, e = .erase j ∧ p = .result j ∧ T.target j = r ∧
        s.requests (T.id r) ≠ none) ∨
      ∃ k entry, e = .find k ∧ p = .aborted k ∧ s.requests (T.victim k) = some entry ∧
        entry.second = some r := by
  cases p with
  | result j =>
    obtain ⟨rfl, h⟩ := h
    rcases erased_next he h with h | ⟨rfl, hentry⟩
    · exact .inl ⟨rfl, h⟩
    · exact .inr (.inl ⟨j, rfl, rfl, rfl, hentry⟩)
  | aborted k =>
    rcases captured_next he h with h | ⟨rfl, -, entry, hentry, hr⟩
    · exact .inl h
    · exact .inr (.inr ⟨k, entry, rfl, rfl, hentry, hr⟩)

theorem spent_mono (he : T.Enabled s e) (h : Spent T s p) : Spent T (T.next s e) p := by
  cases p with
  | result j =>
    have hj : s.completion j = .responded := h
    show (T.next s e).completion j = .responded
    rcases T.completion_next s e j with hnext | rfl | rfl | rfl
    · exact hnext.trans hj
    · exact absurd (he.1.symm.trans hj) nofun
    · exact absurd (Eq.trans (Eq.symm he) hj) nofun
    · exact absurd (Eq.trans (Eq.symm he) hj) nofun
  | aborted k =>
    obtain ⟨entry, hentry, hfound, hsent⟩ := h
    refine ⟨entry, lookup?_mono he hentry, ?_, ?_⟩
    · rcases T.cancel_next s e k with hnext | rfl | rfl | rfl | rfl | rfl
      · rwa [hnext]
      · exact absurd ((congrArg CancelPhase.lookup? he.2).symm.trans hentry) nofun
      · exact absurd ((congrArg CancelPhase.lookup? he).symm.trans hentry) nofun
      all_goals
        simp only [Traffic.next]
        split
        · simp [Function.update_self]
        · exact hfound
    · rcases hsent with htemporary | ⟨d, hd, hfired⟩
      · exact .inl htemporary
      · refine .inr ⟨d, hd, ?_⟩
        rcases T.fired_next s e d with hnext | ⟨-, hnext⟩
        · exact hnext.trans hfired
        · exact hnext

theorem entry_of_done {d : δ} (he : T.Enabled s (.done d)) : ∃ entry,
    (s.cancel (T.cause d)).lookup? = some entry ∧ s.cancel (T.cause d) ≠ .found entry ∧
      entry.first ≠ .temporary := by
  have hcase := he.2
  unfold CancelPhase.isCancelling at hcase
  split at hcase
  · rename_i entry hk
    exact ⟨entry, by rw [hk]; rfl, by rw [hk]; nofun, of_decide_eq_true hcase⟩
  · rename_i entry hk
    exact ⟨entry, by rw [hk]; rfl, by rw [hk]; nofun, of_decide_eq_true hcase⟩
  · cases hcase

theorem answerTo_apply (q : Option ρ) (r : ρ) (p : Reply ι θ) :
    s.answerTo q p r = if q = some r then s.answered r ++ [p] else s.answered r := by
  cases q with
  | none => rfl
  | some r' =>
    simp only [State.answerTo, Function.update_apply, Option.some.injEq, eq_comm]
    split_ifs with hr
    · rw [hr]
    · rfl

/-- Replies are sent one at a time, by those entitled to them. -/
theorem answered_next (he : T.Enabled s e) (r : ρ) :
    (T.next s e).answered r = s.answered r ∨
      ∃ p, (T.next s e).answered r = s.answered r ++ [p] ∧ Entitled T s r p ∧
        (Function.Injective T.cause → ¬ Spent T s p) ∧ Spent T (T.next s e) p := by
  cases e with
  | respond j =>
    have herased : s.completion j = .erased := he
    simp only [Traffic.next, answerTo_apply, Option.some.injEq]
    split_ifs with hr
    · subst hr
      refine .inr ⟨.result j, rfl, ⟨rfl, .inl herased⟩, ?_, ?_⟩
      · simp [Spent, herased]
      · simp [Spent]
    · exact .inl rfl
  | callCancel k =>
    obtain ⟨entry, hk⟩ := found_of_callCancel he
    simp only [Traffic.next, hk]
    split_ifs with hfirst
    · rw [answerTo_apply]
      split_ifs with hr
      · refine .inr ⟨.aborted k, rfl, ?_, ?_, ?_⟩
        · simp [Entitled, State.captured, hk, CancelPhase.lookup?, hr]
        · rintro - ⟨entry', hentry', hfound, -⟩
          rw [hk] at hentry' hfound
          exact hfound (congrArg _ (Option.some.inj hentry'))
        · refine ⟨entry, ?_, ?_, .inl hfirst⟩
          · simp [Function.update_self, CancelPhase.lookup?]
          · simp [Function.update_self]
      · exact .inl rfl
    · exact .inl rfl
  | done d =>
    obtain ⟨entry, hentry, hfound, hfirst⟩ := entry_of_done he
    simp only [Traffic.next, answerTo_apply]
    split_ifs with hr
    · refine .inr ⟨.aborted (T.cause d), rfl, hr, ?_, ?_⟩
      · rintro hcause ⟨entry', hentry', -, hsent⟩
        obtain rfl := Option.some.inj (hentry.symm.trans hentry')
        rcases hsent with htemporary | ⟨d', hd', hfired⟩
        · exact hfirst htemporary
        · obtain rfl := hcause hd'
          cases he.1.symm.trans hfired
      · exact ⟨entry, hentry, hfound, .inr ⟨d, rfl, Function.update_self _ _ _⟩⟩
    · exact .inl rfl
  | tryLock j =>
    simp only [Traffic.next]
    split_ifs <;> exact .inl rfl
  | erase j =>
    simp only [Traffic.next]
    split_ifs <;> exact .inl rfl
  | find k =>
    simp only [Traffic.next]
    split <;> exact .inl rfl
  | unwind k =>
    simp only [Traffic.next]
    split <;> exact .inl rfl
  | eraseCancel k =>
    simp only [Traffic.next]
    split <;> exact .inl rfl
  | _ => exact .inl rfl

theorem answered_mono (he : T.Enabled s e) (r : ρ) : s.answered r ⊆ (T.next s e).answered r := by
  rcases answered_next he r with hsame | ⟨p, hnew, -⟩
  · rw [hsame]
    exact List.Subset.refl _
  · rw [hnew]
    exact List.subset_append_left _ _

theorem not_entitled_initial (r : ρ) (p : Reply ι θ) : ¬ Entitled T State.initial r p := by
  cases p with
  | result j => exact fun h => h.2.elim nofun nofun
  | aborted k => exact nofun

theorem tracked_initial : Tracked T State.initial where
  replied := nofun
  responded := nofun
  key := nofun
  victim := nofun
  begun := nofun
  started _ hj := absurd rfl hj
  entitled r p hp := absurd hp (not_entitled_initial r p)
  live := nofun

variable (hs : Locked s) (h : Tracked T s) (he : T.Enabled s e)
include h he

theorem begun_step {key : Option κ} {entry : Entry ρ}
    (hentry : (T.next s e).requests key = some entry) (hr : entry.second = some r) :
    T.id r = key ∧ (T.next s e).process r ≠ .idle := by
  rcases entry_next hentry hr with ⟨entry', hentry', hr'⟩ | ⟨rfl, hkey⟩
  · exact ⟨h.key key entry' r hentry' hr', begun_next he (h.begun key entry' r hentry' hr')⟩
  · exact ⟨hkey, by simp [Traffic.next, Function.update_self]⟩

theorem victim_step (hk : (T.next s e).captured k = some r) : T.id r = T.victim k := by
  rcases captured_next he hk with hk | ⟨-, -, entry, hentry, hr⟩
  · exact h.victim k r hk
  · exact h.key _ entry r hentry hr

theorem started_step (hj : (T.next s e).completion j ≠ .idle) :
    (T.next s e).process (T.target j) ≠ .idle := by
  apply begun_next he
  by_cases hidle : s.completion j = .idle
  · rcases T.completion_next s e j with hnext | rfl | rfl | rfl
    · exact absurd (hnext.trans hidle) hj
    · have hcalled := he.2
      intro hprocess
      simp [State.isCalled, hprocess] at hcalled
    · exact absurd (hidle.symm.trans he) nofun
    · exact absurd (hidle.symm.trans he) nofun
  · exact h.started j hidle

theorem entitled_step (hp : Entitled T (T.next s e) r p) : (T.next s e).process r ≠ .idle := by
  apply begun_next he
  rcases entitled_next he hp with hp | ⟨j, rfl, -, rfl, -⟩ | ⟨k, entry, -, -, hentry, hr⟩
  · exact h.entitled r p hp
  · have hlocked : s.completion j = .locked := he
    exact h.started j (by rw [hlocked]; nofun)
  · exact h.begun _ entry r hentry hr

theorem replied_step (hp : p ∈ (T.next s e).answered r) : Entitled T (T.next s e) r p := by
  apply entitled_mono he
  rcases answered_next he r with hsame | ⟨q, hnew, hq, -⟩
  · exact h.replied r p (hsame ▸ hp)
  · rw [hnew, List.mem_append, List.mem_singleton] at hp
    rcases hp with hp | rfl
    · exact h.replied r p hp
    · exact hq

theorem responded_step (hj : (T.next s e).completion j = .responded) :
    .result j ∈ (T.next s e).answered (T.target j) := by
  rcases T.completion_next s e j with hnext | rfl | rfl | rfl
  · exact answered_mono he _ (h.responded j (hnext.symm.trans hj))
  · simp only [Traffic.next] at hj
    split_ifs at hj <;> simp [Function.update_self] at hj
  · simp only [Traffic.next] at hj
    split_ifs at hj <;> simp [Function.update_self] at hj
  · simp [Traffic.next, answerTo_apply]

include hs

theorem live_step {entry : Entry ρ} (hentry : (T.next s e).requests (T.id r) = some entry)
    (hr : entry.second = some r) (hp : Entitled T (T.next s e) r p) :
    ∃ k, p = .aborted k ∧ (T.next s e).mutex = some (.cancel k) := by
  rcases entry_next hentry hr with ⟨entry', hentry', hr'⟩ | ⟨rfl, -⟩
  · rcases entitled_next he hp with hp' | ⟨j, rfl, rfl, rfl, habsent⟩ | ⟨k, found, rfl, rfl, hf, -⟩
    · obtain ⟨k, rfl, hm⟩ := h.live r entry' p hentry' hr' hp'
      refine ⟨k, rfl, ?_⟩
      rcases released_next hs he hm with hm' | hnone | hnone
      · exact hm'
      · exact absurd (hnone.symm.trans hp) nofun
      · rw [← victim_step h he hp] at hnone
        exact absurd (hnone.symm.trans hentry) nofun
    · simp [Traffic.next, habsent] at hentry
    · refine ⟨k, rfl, ?_⟩
      simp only [Traffic.next, hf]
      exact hs.mutex_of_locked he
  · rcases entitled_next he hp with hp' | ⟨j, hj, -⟩ | ⟨k, found, hk, -⟩
    · exact absurd he.2 (h.entitled r p hp')
    · cases hj
    · cases hk

theorem tracked_step : Tracked T (T.next s e) where
  key _ _ _ hentry hr := (begun_step h he hentry hr).1
  victim _ _ hk := victim_step h he hk
  begun _ _ _ hentry hr := (begun_step h he hentry hr).2
  started _ hj := started_step h he hj
  entitled _ _ hp := entitled_step h he hp
  live _ _ _ hentry hr hp := live_step hs h he hentry hr hp
  replied _ _ hp := replied_step h he hp
  responded _ hj := responded_step h he hj

end Tracking

section Ownership

/-- Cancel functions are not stored for requests that have been cancelled meanwhile. -/
def StoresInTime (s : State κ ρ ι θ δ) : Event ρ ι θ δ → Prop
  | .lockStore r => ∀ k, s.captured k ≠ some r
  | _ => True

variable (hid : Function.Injective T.id) (htarget : Function.Injective T.target)
  (hcause : Function.Injective T.cause) (hs : Locked s) (h : Owned T s) (he : T.Enabled s e)
include h he hs

include hid in
theorem gone_step (hg : StoresInTime s e) (hk : (T.next s e).captured k = some r)
    (hm : (T.next s e).mutex ≠ some (.cancel k)) : (T.next s e).requests (T.id r) = none := by
  rcases captured_next he hk with hk' | ⟨rfl, -, entry, hentry, -⟩
  · by_cases hmutex : s.mutex = some (.cancel k)
    · rcases released_next hs he hmutex with hm' | hnone | hnone
      · exact absurd hm' hm
      · exact absurd (hnone.symm.trans hk) nofun
      · rwa [victim_step h.toTracked he hk]
    · rcases absent_next (e := e) (h.gone k r hk' hmutex) with hnone | ⟨r', hmade, hr'⟩
      · exact hnone
      · obtain rfl := hid hr'
        rcases hmade with rfl | rfl
        · exact absurd he.2 (h.entitled r' (.aborted k) hk')
        · exact absurd hk' (hg k)
  · simp only [Traffic.next, hentry] at hm
    exact absurd (hs.mutex_of_locked he) hm

include htarget in
/-- An entry in the table has no owner but the one who takes it now. -/
theorem unique_of_new {q : Reply ι θ} (hp : Entitled T s r p)
    (hq : (∃ j, e = .erase j ∧ q = .result j ∧ T.target j = r ∧ s.requests (T.id r) ≠ none) ∨
      ∃ k entry, e = .find k ∧ q = .aborted k ∧ s.requests (T.victim k) = some entry ∧
        entry.second = some r) : p = q := by
  rcases hq with ⟨j, rfl, rfl, rfl, hentry⟩ | ⟨k, entry, rfl, rfl, hentry, hr⟩
  · cases p with
    | result j' => rw [htarget hp.1]
    | aborted k =>
      have hmutex : s.mutex ≠ some (.cancel k) := by
        rw [(hs.skip j).mp he]
        nofun
      exact absurd (h.gone k _ hp hmutex) hentry
  · have hmutex := hs.mutex_of_locked he
    have hkey := h.key _ entry r hentry hr
    obtain ⟨k', rfl, hmutex'⟩ := h.live r entry p (hkey ▸ hentry) hr hp
    obtain ⟨rfl⟩ := Option.some.inj (hmutex.symm.trans hmutex')
    rfl

include htarget in
theorem unique_step {q : Reply ι θ} (hp : Entitled T (T.next s e) r p)
    (hq : Entitled T (T.next s e) r q) : p = q := by
  rcases entitled_next he hp with hp' | hp'
  · rcases entitled_next he hq with hq' | hq'
    · exact h.unique r p q hp' hq'
    · exact unique_of_new htarget hs h he hp' hq'
  · rcases entitled_next he hq with hq' | hq'
    · exact (unique_of_new htarget hs h he hq' hp').symm
    · rcases hp' with ⟨j, rfl, rfl, -, -⟩ | ⟨k, _, rfl, rfl, -, -⟩
      · rcases hq' with ⟨j', hj', rfl, -, -⟩ | ⟨k, _, hk, -, -, -⟩
        · cases hj'
          rfl
        · cases hk
      · rcases hq' with ⟨j', hj', -, -, -⟩ | ⟨k', _, hk', rfl, -, -⟩
        · cases hj'
        · cases hk'
          rfl

omit hs

theorem spent_step (hp : p ∈ (T.next s e).answered r) : Spent T (T.next s e) p := by
  rcases answered_next he r with hsame | ⟨q, hnew, -, -, hspent⟩
  · exact spent_mono he (h.spent r p (hsame ▸ hp))
  · rw [hnew, List.mem_append, List.mem_singleton] at hp
    rcases hp with hp | rfl
    · exact spent_mono he (h.spent r p hp)
    · exact hspent

include hcause in
theorem nodup_step (r : ρ) : ((T.next s e).answered r).Nodup := by
  rcases answered_next he r with hsame | ⟨q, hnew, -, hunspent, -⟩
  · rw [hsame]
    exact h.nodup r
  · rw [hnew, List.nodup_append]
    refine ⟨h.nodup r, List.pairwise_singleton _ q, ?_⟩
    intro p hp q' hq' hpq
    obtain rfl := List.mem_singleton.mp hq'
    exact hunspent hcause (hpq ▸ h.spent r p hp)

include hid htarget hcause hs in
theorem owned_step (hg : StoresInTime s e) : Owned T (T.next s e) where
  toTracked := tracked_step hs h.toTracked he
  gone _ _ hk hm := gone_step hid hs h he hg hk hm
  unique _ _ _ hp hq := unique_step htarget hs h he hp hq
  spent _ _ hp := spent_step h he hp
  nodup r := nodup_step hcause h he r

end Ownership

section AtMostOnce

theorem owned_initial : Owned T State.initial where
  toTracked := tracked_initial
  gone := nofun
  unique r p _ hp := absurd hp (not_entitled_initial r p)
  spent := nofun
  nodup _ := List.nodup_nil

variable {es : List (Event ρ ι θ δ)}

theorem owned_run (hid : Function.Injective T.id) (htarget : Function.Injective T.target)
    (hcause : Function.Injective T.cause) (h : T.machine.Guarded StoresInTime es s) :
    Locked s ∧ Owned T s :=
  h.invariant (I := fun s => Locked s ∧ Owned T s) ⟨locked_initial, owned_initial⟩
    fun _ _ hI he hg => ⟨locked_step hI.1 he, owned_step hid htarget hcause hI.1 hI.2 he hg⟩

/-- Under the guard every request with an id of its own is answered at most once, if each
response callback and each `done` callback is invoked at most once. -/
theorem answered_at_most_once (hid : Function.Injective T.id)
    (htarget : Function.Injective T.target) (hcause : Function.Injective T.cause)
    (h : T.machine.Guarded StoresInTime es s) (r : ρ) : (s.answered r).length ≤ 1 := by
  obtain ⟨-, howned⟩ := owned_run hid htarget hcause h
  have hnodup := howned.nodup r
  have hsame (p q : Reply ι θ) (hp : p ∈ s.answered r) (hq : q ∈ s.answered r) : p = q :=
    howned.unique r p q (howned.replied r p hp) (howned.replied r q hq)
  match hanswered : s.answered r with
  | [] => simp
  | [_] => simp
  | p :: q :: ps =>
    rw [hanswered] at hnodup hsame
    have hpq := hsame p q (by simp) (by simp)
    simp [hpq] at hnodup

/-- Shared by the literals of the traffic below. -/
instance instNeZeroTraffic : NeZero 2 := ⟨by decide⟩

/-- Two requests with ids 0 and 1, each with one response callback and one cancel
notification that invokes `done` once. -/
def twoRequests : Traffic (Fin 2) (Fin 2) (Fin 2) (Fin 2) (Fin 2) where
  id r := some r
  client _ := 7
  target j := j
  victim k := some k
  sender _ := 7
  cause d := d

instance [Fintype θ] (s : State κ ρ ι θ δ) (e : Event ρ ι θ δ) : Decidable (StoresInTime s e) :=
  match e with
  | .lockStore _ => inferInstanceAs (Decidable (∀ _, _))
  | .lockInsert _ | .unlockInsert _ | .callAction _ | .returnAction _ _ | .unlockStore _
  | .tryLock _ | .erase _ | .respond _ | .lockCancel _ | .find _ | .callCancel _ | .unwind _
  | .eraseCancel _ | .done _ => isTrue trivial

/-- Request 0 is cancelled after its cancel function has been stored, request 1 completes. -/
def cancelledAfterStore : List (Event (Fin 2) (Fin 2) (Fin 2) (Fin 2)) :=
  [.lockInsert 0, .unlockInsert 0, .callAction 0, .returnAction 0 true, .lockStore 0,
    .unlockStore 0, .lockInsert 1, .unlockInsert 1, .callAction 1, .lockCancel 0, .find 0,
    .callCancel 0, .tryLock 0, .eraseCancel 0, .done 0, .tryLock 1, .erase 1, .respond 1,
    .returnAction 1 false]

theorem cancelledAfterStore_answered :
    ∃ s, twoRequests.machine.Guarded StoresInTime cancelledAfterStore s ∧
      (s.answered 0).length ≤ 1 ∧ s.answered 0 = [.aborted 0] ∧ s.answered 1 = [.result 1] := by
  have hrun := Machine.Path.of_isSome (M := twoRequests.machine) (G := StoresInTime)
    twoRequests.machine.init cancelledAfterStore (by decide)
  have hid : Function.Injective twoRequests.id := fun _ _ h => Option.some.inj h
  exact ⟨_, hrun, answered_at_most_once hid Function.injective_id Function.injective_id hrun 0,
    by decide, by decide⟩

/-- Request 0 is cancelled between the call of its action and the store of its cancel
function, which puts an entry back for its response callback to find. -/
def cancelledBeforeStore : List (Event (Fin 2) (Fin 2) (Fin 2) (Fin 2)) :=
  [.lockInsert 0, .unlockInsert 0, .callAction 0, .lockCancel 0, .find 0, .callCancel 0,
    .eraseCancel 0, .returnAction 0 true, .lockStore 0, .unlockStore 0, .tryLock 0, .erase 0,
    .respond 0]

theorem cancelledBeforeStore_answered_twice :
    ¬ ∀ (T : Traffic (Fin 2) (Fin 2) (Fin 2) (Fin 2) (Fin 2))
      (es : List (Event (Fin 2) (Fin 2) (Fin 2) (Fin 2))) (s : State _ _ _ _ _),
      Function.Injective T.id → (∀ r, T.id r ≠ none) → Function.Injective T.target →
      Function.Injective T.cause → T.machine.Run es s → ∀ r, (s.answered r).length ≤ 1 := by
  intro hall
  have hrun := Machine.Path.of_isSome (M := twoRequests.machine) (G := fun _ _ => True)
    twoRequests.machine.init cancelledBeforeStore (by decide)
  have hid : Function.Injective twoRequests.id := fun _ _ h => Option.some.inj h
  have honce := hall twoRequests _ _ hid nofun Function.injective_id Function.injective_id hrun 0
  exact absurd honce (by decide)

end AtMostOnce
end Rockets.JsonRpc.Cancellable
