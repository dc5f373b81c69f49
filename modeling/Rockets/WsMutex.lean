import Rockets.WsThreads

set_option autoImplicit false

/-!
# The mutex of the websocket connections

One thread at a time is in a scope that holds the mutex. A callback runs in such a scope, so an
operation that it performs waits for the thread that it runs in.
-/
namespace Rockets.Ws.Threads
open Function (update)

/-- The part of an operation that holds the mutex. -/
def Progress.holds {n : ℕ} : Progress n → Bool
  | .locking _ => false
  | .enqueuing _ _ | .requesting _ => true

def Phase.holds : Phase → Bool
  | .callback _ _ | .writing _ => true
  | .service | .serving _ | .requesting _ => false

def Phase.isCallback : Phase → Bool
  | .callback _ _ => true
  | _ => false

/-- The thread that takes the step. -/
def Event.thread {n : ℕ} {π : Type} : Event n π → Thread n π
  | .begin p _ => .inr p
  | .lock x | .enqueue x | .request x | .setFlag x | .unlock x => x
  | .enter t _ _ | .perform t | .reply t _ _ | .leave t | .consume t _ | .lockWrite t | .write t
  | .unlockWrite t | .readFlag t | .requestWrite t | .clearFlag t => .inl t

namespace State
variable {n : ℕ} {π : Type} {s : State n π} {t : Fin n}

/-- Whoever is in a locked scope has the mutex. A service thread performs operations in
callbacks only, and none of them gets the mutex. -/
structure Exclusive (s : State n π) : Prop where
  operation : ∀ p, ∀ q ∈ s.running (.inr p), q.holds = true → s.mutex = some (.inr p)
  entry : ∀ t, (s.phase t).holds = true → s.mutex = some (.inl t)
  nested : ∀ t, ∀ q ∈ s.running (.inl t),
    (∃ op, q = .locking op) ∧ (s.phase t).isCallback = true

/-- The thread waits for the mutex that it has itself. -/
def Relocks (s : State n π) (t : Fin n) : Prop :=
  s.mutex = some (.inl t) ∧ ∃ op, s.running (.inl t) = some (.locking op)

theorem Phase.holds_of_isCallback {phase : Phase} (h : phase.isCallback = true) :
    phase.holds = true := by
  cases phase with
  | callback => rfl
  | _ => cases h

theorem Exclusive.relocks (h : Exclusive s) {q : Progress n} (hq : s.running (.inl t) = some q) :
    s.Relocks t := by
  obtain ⟨⟨op, rfl⟩, hphase⟩ := h.nested t q hq
  exact ⟨h.entry t (Phase.holds_of_isCallback hphase), op, hq⟩

theorem Exclusive.idle (h : Exclusive s) (ht : (s.phase t).isCallback = false) :
    s.running (.inl t) = none := by
  by_contra hne
  obtain ⟨q, hq⟩ := Option.ne_none_iff_exists'.mp hne
  simp [(h.nested t q hq).2] at ht

theorem Exclusive.eq_inr (h : Exclusive s) {x : Thread n π} {q : Progress n}
    (hx : s.running x = some q) (hq : q.holds = true) :
    ∃ p, x = .inr p ∧ s.mutex = some (.inr p) := by
  cases x with
  | inl t =>
    obtain ⟨⟨op, rfl⟩, -⟩ := h.nested t q hx
    cases hq
  | inr p => exact ⟨p, rfl, h.operation p q hx hq⟩

theorem Exclusive.setRunning [DecidableEq π] (h : Exclusive s) {p : π}
    (progress : Option (Progress n)) (mutex : Option (Thread n π)) (hmutex : ∀ y, y ≠ .inr p → s.mutex = some y → mutex = some y)
    (hp : ∀ q ∈ progress, q.holds = true → mutex = some (.inr p)) :
    Exclusive ({ s with mutex }.setRunning (.inr p) progress) where
  operation r q hq hholds := by
    by_cases hr : r = p
    · subst hr
      exact hp q (by simpa using hq) hholds
    · have hne : (Sum.inr r : Thread n π) ≠ .inr p := by simpa using hr
      exact hmutex _ hne (h.operation r q (by simpa [hne] using hq) hholds)
  entry u hu := hmutex _ nofun (h.entry u hu)
  nested u q hq := h.nested u q (by simpa using hq)

theorem Exclusive.setPhase (h : Exclusive s) (phase : Phase) (mutex : Option (Thread n π))
    (hmutex : ∀ y, y ≠ .inl t → s.mutex = some y → mutex = some y)
    (ht : phase.holds = true → mutex = some (.inl t))
    (hnested : s.running (.inl t) = none ∨ phase.isCallback = true) :
    Exclusive ({ s with mutex }.setPhase t phase) where
  operation p q hq hholds := hmutex _ nofun (h.operation p q hq hholds)
  entry u hu := by
    by_cases hut : u = t
    · subst hut
      exact ht (by simpa using hu)
    · exact hmutex _ (by simpa using hut) (h.entry u (by simpa [hut] using hu))
  nested u q hq := by
    obtain ⟨hop, hphase⟩ := h.nested u q hq
    refine ⟨hop, ?_⟩
    by_cases hut : u = t
    · subst hut
      rcases hnested with hnone | hcallback
      · exact absurd (hnone.symm.trans hq) nofun
      · simpa using hcallback
    · simpa [hut] using hphase

theorem Exclusive.onConnection (h : Exclusive s) (wsi : ℕ) (f : Connection → Connection) :
    Exclusive (s.onConnection wsi f) :=
  ⟨h.operation, h.entry, h.nested⟩

theorem Exclusive.enter (h : Exclusive s) (entry : Entry) (ops : List Operation)
    (hfree : s.mutex = none) : Exclusive (s.enter t entry ops) := by
  have hcallback := h.setPhase (t := t) (.callback entry ops) (some (.inl t))
    (fun y _ hy => absurd (hfree.symm.trans hy) nofun) (fun _ => rfl) (.inr rfl)
  cases entry with
  | «open» wsi address => exact ⟨hcallback.operation, hcallback.entry, hcallback.nested⟩
  | close _ | receive _ => exact hcallback

theorem Exclusive.leave (h : Exclusive s) {entry : Entry} {ops : List Operation}
    (ht : s.phase t = .callback entry ops) (hnone : s.running (.inl t) = none) :
    Exclusive (s.leave t entry) := by
  have hmutex := h.entry t (by rw [ht]; rfl)
  have hservice := h.setPhase (t := t) .service none
    (fun y hy hy' => absurd (Option.some.inj (hmutex.symm.trans hy')).symm hy) nofun (.inl hnone)
  cases entry with
  | close wsi => exact ⟨hservice.operation, hservice.entry, hservice.nested⟩
  | «open» _ _ | receive _ => exact hservice

variable [DecidableEq π]

theorem Exclusive.perform (h : Exclusive s) {entry : Entry} (op : Operation)
    (ops : List Operation) {ops' : List Operation} (ht : s.phase t = .callback entry ops') :
    Exclusive ((s.setPhase t (.callback entry ops)).setRunning (.inl t) (some (.locking op))) := by
  have hmutex := h.entry t (by rw [ht]; rfl)
  have hcallback := h.setPhase (t := t) (.callback entry ops) s.mutex (fun y _ hy => hy)
    (fun _ => hmutex) (.inr rfl)
  exact
    { operation := fun p q hq => h.operation p q (by simpa using hq)
      entry := hcallback.entry
      nested := fun u q hq => by
        by_cases hut : u = t
        · subst hut
          obtain rfl : Progress.locking op = q := by simpa using hq
          exact ⟨⟨op, rfl⟩, by simp [Phase.isCallback]⟩
        · exact hcallback.nested u q (by simpa [hut] using hq) }

theorem Exclusive.next (h : Exclusive s) {e : Event n π} (he : s.Enabled e) :
    Exclusive (s.next e) := by
  have hfree : s.mutex = none → ∀ y x : Thread n π, y ≠ x → s.mutex = some y → some x = some y :=
    fun hnone y _ _ hy => absurd (hnone.symm.trans hy) nofun
  -- a thread that is in no locked scope turns to another one
  have hturn : ∀ t phase, (s.phase t).isCallback = false → phase.holds = false →
      Exclusive (s.setPhase t phase) := by
    intro t phase ht hphase
    refine h.setPhase phase s.mutex (fun y _ hy => hy) (fun hp => ?_) (.inl (h.idle ht))
    simp [hphase] at hp
  cases e with
  | begin p op => exact h.setRunning _ s.mutex (fun y _ hy => hy) (by rintro q ⟨⟩ hq; cases hq)
  | lock x =>
    obtain ⟨hnone, op, hx⟩ := he
    simp only [State.next, hx]
    cases x with
    | inl t => exact absurd (hnone.symm.trans (h.relocks hx).1) nofun
    | inr p =>
      exact h.setRunning _ (some (.inr p)) (fun y hy => hfree hnone y _ hy) fun _ _ _ => rfl
  | enqueue x =>
    obtain ⟨op, wsi, rest, hx⟩ := he
    obtain ⟨p, rfl, hmutex⟩ := h.eq_inr hx rfl
    simp only [State.next, hx]
    exact (h.onConnection wsi op.visit).setRunning _ s.mutex (fun y _ hy => hy) fun _ _ _ => hmutex
  | request x =>
    obtain ⟨op, hx⟩ := he
    obtain ⟨p, rfl, hmutex⟩ := h.eq_inr hx rfl
    simp only [State.next, hx]
    exact h.setRunning _ s.mutex (fun y _ hy => hy) fun _ _ _ => hmutex
  | setFlag x =>
    obtain ⟨tsi, rest, hx⟩ := he
    obtain ⟨p, rfl, hmutex⟩ := h.eq_inr hx rfl
    simp only [State.next, hx]
    have hflag : Exclusive
        { s with broadcastRequested := update s.broadcastRequested tsi true } :=
      ⟨h.operation, h.entry, h.nested⟩
    exact hflag.setRunning _ s.mutex (fun y _ hy => hy) fun _ _ _ => hmutex
  | unlock x =>
    obtain ⟨p, rfl, hmutex⟩ := h.eq_inr he rfl
    exact h.setRunning none none
      (fun y hy hy' => absurd (Option.some.inj (hmutex.symm.trans hy')).symm hy) nofun
  | enter t entry ops => exact h.enter entry ops he.1
  | perform t =>
    obtain ⟨-, entry, op, ops, ht⟩ := he
    simp only [State.next, ht]
    exact h.perform op ops ht
  | reply t wsi message => exact h.onConnection wsi _
  | leave t =>
    obtain ⟨hnone, entry, ht⟩ := he
    simp only [State.next, ht]
    exact h.leave ht hnone
  | consume t wsi =>
    have hserving := hturn t (.serving wsi) (by rw [he.1]; rfl) rfl
    exact hserving.onConnection wsi _
  | lockWrite t =>
    obtain ⟨hnone, wsi, ht⟩ := he
    simp only [State.next, ht]
    exact h.setPhase (.writing wsi) (some (.inl t)) (fun y hy => hfree hnone y _ hy)
      (fun _ => rfl) (.inl (h.idle (by rw [ht]; rfl)))
  | write t =>
    obtain ⟨wsi, ht, -⟩ := he
    simp only [State.next, ht]
    exact h.onConnection wsi _
  | unlockWrite t =>
    obtain ⟨wsi, ht⟩ := he
    simp only [State.next, ht]
    have hmutex := h.entry t (by rw [ht]; rfl)
    have hservice := h.setPhase (t := t) .service none
      (fun y hy hy' => absurd (Option.some.inj (hmutex.symm.trans hy')).symm hy) nofun
      (.inl (h.idle (by rw [ht]; rfl)))
    exact hservice.onConnection wsi _
  | readFlag t =>
    simp only [State.next]
    split_ifs
    · exact hturn t _ (by rw [he]; rfl) rfl
    · exact h
  | requestWrite t =>
    obtain ⟨wsi, rest, ht⟩ := he
    simp only [State.next, ht]
    exact (hturn t (.requesting rest) (by rw [ht]; rfl) rfl).onConnection wsi _
  | clearFlag t =>
    have hservice := hturn t .service (by rw [he]; rfl) rfl
    exact ⟨hservice.operation, hservice.entry, hservice.nested⟩

theorem exclusive_run {flags : Fin n → Bool} {es : List (Event n π)}
    (h : (machine flags).Run es s) : Exclusive s :=
  h.invariant ⟨nofun, nofun, nofun⟩ fun _ _ hs he _ => hs.next he

/-- A thread that waits for itself waits for ever. -/
theorem Relocks.next (hr : s.Relocks t) (h : Exclusive s) {e : Event n π} (he : s.Enabled e) :
    (s.next e).Relocks t := by
  obtain ⟨hmutex, op, hrunning⟩ := hr
  suffices hkept : (s.next e).running (.inl t) = some (.locking op) from (h.next he).relocks hkept
  have happlication : ∀ {x : Thread n π} {q : Progress n}, s.running x = some q →
      q.holds = true → ∀ progress, update s.running x progress (.inl t) = some (.locking op) := by
    intro x q hx hq progress
    obtain ⟨p, rfl, -⟩ := h.eq_inr hx hq
    simp [hrunning]
  cases e with
  | begin p _ => simp [State.next, hrunning]
  | lock x => exact absurd (hmutex.symm.trans he.1) nofun
  | enqueue x =>
    obtain ⟨_, _, _, hx⟩ := he
    simp only [State.next, hx]
    exact happlication hx rfl _
  | request x =>
    obtain ⟨_, hx⟩ := he
    simp only [State.next, hx]
    exact happlication hx rfl _
  | setFlag x =>
    obtain ⟨_, _, hx⟩ := he
    simp only [State.next, hx]
    exact happlication hx rfl _
  | unlock x => exact happlication he rfl _
  | enter u entry ops => exact absurd (hmutex.symm.trans he.1) nofun
  | perform u =>
    obtain ⟨hnone, _, _, _, hu⟩ := he
    have hne : (Sum.inl t : Thread n π) ≠ .inl u := by
      intro hut
      rw [hut, hnone] at hrunning
      cases hrunning
    simp [State.next, hu, hne, hrunning]
  | leave u =>
    obtain ⟨-, _, hu⟩ := he
    simp [State.next, hu, hrunning]
  | lockWrite u => exact absurd (hmutex.symm.trans he.1) nofun
  | write u =>
    obtain ⟨_, hu, -⟩ := he
    simp [State.next, hu, hrunning]
  | unlockWrite u =>
    obtain ⟨_, hu⟩ := he
    simp [State.next, hu, hrunning]
  | readFlag u =>
    simp only [State.next]
    split_ifs <;> exact hrunning
  | requestWrite u =>
    obtain ⟨_, _, hu⟩ := he
    simp [State.next, hu, hrunning]
  | reply _ _ _ | consume _ _ | clearFlag _ => exact hrunning

theorem Relocks.forever (hr : s.Relocks t) (h : Exclusive s) {flags : Fin n → Bool}
    {G : State n π → Event n π → Prop} {es : List (Event n π)} {u : State n π}
    (hrun : (machine flags).Path G s es u) : u.Relocks t :=
  (hrun.invariant (I := fun v => Exclusive v ∧ v.Relocks t) ⟨h, hr⟩ fun _ _ hv he _ =>
    ⟨hv.1.next he, hv.2.next hv.1 he⟩).2

/-- Until it returns a callback never waits for its own thread, which can always go on. -/
def Completes (flags : Fin n → Bool) (s : State n π) (t : Fin n) (entry : Entry)
    (ops : List Operation) : Prop :=
  ∀ es u, (machine flags).Path (fun _ e => ∀ entry ops, e ≠ .enter t entry ops)
      (s.next (.enter t entry ops)) es u →
    ¬ u.Relocks t ∧ ((u.phase t).isCallback = true → ∃ e, e.thread = .inl t ∧ u.Enabled e)

/-- The thread is in no operation, and in a callback it has none left to perform. -/
structure Unnested (s : State n π) (t : Fin n) : Prop where
  running : s.running (.inl t) = none
  callback : ∀ entry ops, s.phase t = .callback entry ops → ops = []

omit [DecidableEq π] in
theorem Unnested.of_same {s' : State n π} (h : Unnested s t)
    (hrunning : s'.running (.inl t) = s.running (.inl t))
    (hphase : s'.phase t = s.phase t ∨ (s'.phase t).isCallback = false) : Unnested s' t := by
  refine ⟨hrunning.trans h.running, fun entry ops ht => ?_⟩
  rcases hphase with hsame | hno
  · exact h.callback entry ops (hsame.symm.trans ht)
  · rw [ht] at hno
    cases hno

theorem Unnested.next (h : Unnested s t) {e : Event n π} (he : s.Enabled e)
    (hno : ∀ entry ops, e ≠ .enter t entry ops) : Unnested (s.next e) t := by
  have hrunning : ∀ {x q}, s.running x = some q → ∀ progress,
      update s.running x progress (.inl t) = s.running (.inl t) := by
    intro x q hx progress
    refine Function.update_of_ne ?_ _ _
    rintro rfl
    exact absurd (h.running.symm.trans hx) nofun
  have hphase : ∀ {phase : Phase} (u : Fin n), phase.isCallback = false →
      update s.phase u phase t = s.phase t ∨ (update s.phase u phase t).isCallback = false := by
    intro phase u hno
    rw [Function.update_apply]
    split_ifs
    · exact .inr hno
    · exact .inl rfl
  cases e with
  | begin p op => exact h.of_same (by simp [State.next]) (.inl rfl)
  | lock x =>
    obtain ⟨-, op, hx⟩ := he
    simp only [State.next, hx]
    exact h.of_same (hrunning hx _) (.inl rfl)
  | enqueue x =>
    obtain ⟨op, wsi, rest, hx⟩ := he
    simp only [State.next, hx]
    exact h.of_same (hrunning hx _) (.inl rfl)
  | request x =>
    obtain ⟨op, hx⟩ := he
    simp only [State.next, hx]
    exact h.of_same (hrunning hx _) (.inl rfl)
  | setFlag x =>
    obtain ⟨tsi, rest, hx⟩ := he
    simp only [State.next, hx]
    exact h.of_same (hrunning hx _) (.inl rfl)
  | unlock x => exact h.of_same (hrunning he _) (.inl rfl)
  | enter u entry ops =>
    have hut : t ≠ u := fun hut => hno entry ops (by rw [hut])
    exact h.of_same (by simp [State.next]) (.inl (by simp [State.next, hut]))
  | perform u =>
    obtain ⟨-, entry, op, ops, hu⟩ := he
    have hut : t ≠ u := by
      rintro rfl
      cases h.callback _ _ hu
    have hne : (Sum.inl t : Thread n π) ≠ .inl u := by simpa using hut
    simp only [State.next, hu]
    exact h.of_same (by simp [hne]) (.inl (by simp [hut]))
  | reply u wsi message => exact h.of_same rfl (.inl rfl)
  | leave u =>
    obtain ⟨-, entry, hu⟩ := he
    simp only [State.next, hu]
    exact h.of_same (by simp) (by simpa using hphase u rfl)
  | consume u wsi => exact h.of_same rfl (hphase u rfl)
  | lockWrite u =>
    obtain ⟨-, wsi, hu⟩ := he
    simp only [State.next, hu]
    exact h.of_same rfl (hphase u rfl)
  | write u =>
    obtain ⟨wsi, hu, -⟩ := he
    simp only [State.next, hu]
    exact h.of_same rfl (.inl rfl)
  | unlockWrite u =>
    obtain ⟨wsi, hu⟩ := he
    simp only [State.next, hu]
    exact h.of_same rfl (hphase u rfl)
  | readFlag u =>
    simp only [State.next]
    split_ifs
    · exact h.of_same rfl (hphase u rfl)
    · exact h
  | requestWrite u =>
    obtain ⟨wsi, rest, hu⟩ := he
    simp only [State.next, hu]
    exact h.of_same rfl (hphase u rfl)
  | clearFlag u => exact h.of_same rfl (hphase u rfl)

/-- A callback that performs no operation never waits, and returns. -/
theorem completes_nil (flags : Fin n → Bool) (h : Exclusive s) {entry : Entry}
    (he : s.Enabled (.enter t entry [])) : Completes flags s t entry [] := by
  intro es u hrun
  have hentered : Unnested (s.next (.enter t entry [])) t := by
    refine ⟨?_, fun entry' ops ht => ?_⟩
    · simpa [State.next] using h.idle (by rw [he.2.1]; rfl)
    · have heq : Phase.callback entry [] = .callback entry' ops := by
        simpa [State.next] using ht
      exact (Phase.callback.inj heq).2.symm
  have hunnested : Unnested u t := hrun.invariant hentered fun _ _ hv hev hno =>
    Unnested.next hv hev hno
  refine ⟨fun ⟨_, op, hop⟩ => absurd (hunnested.running.symm.trans hop) nofun, fun hu => ?_⟩
  cases hphase : u.phase t with
  | callback entry' ops =>
    obtain rfl := hunnested.callback entry' ops hphase
    exact ⟨.leave t, rfl, hunnested.running, entry', hphase⟩
  | _ => simp [hphase, Phase.isCallback] at hu

theorem completes_iff {flags : Fin n → Bool} {es : List (Event n π)}
    (h : (machine flags).Run es s) {entry : Entry} {ops : List Operation}
    (he : s.Enabled (.enter t entry ops)) : Completes flags s t entry ops ↔ ops = [] := by
  constructor
  · intro hall
    by_contra hne
    obtain ⟨op, ops', rfl⟩ := List.exists_cons_of_ne_nil hne
    have hidle := (exclusive_run h).idle (t := t) (by rw [he.2.1]; rfl)
    have hperform : (s.next (.enter t entry (op :: ops'))).Enabled (.perform t) :=
      ⟨by simpa [State.next] using hidle, entry, op, ops', by simp [State.next]⟩
    have hrun : (machine flags).Path (fun _ e => ∀ entry ops, e ≠ .enter t entry ops)
        (s.next (.enter t entry (op :: ops'))) [.perform t] _ := .single hperform nofun
    refine (hall _ _ hrun).1 ⟨?_, op, ?_⟩
    · simp [machine, State.next]
    · simp [machine, State.next]
  · rintro rfl
    exact completes_nil flags (exclusive_run h) he

end State
end Rockets.Ws.Threads
