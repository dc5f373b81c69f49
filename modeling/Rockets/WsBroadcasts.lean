import Rockets.WsThreads

set_option autoImplicit false

/-!
# Broadcasts reach the service threads

A service thread clears its flag after it has requested callbacks. No message is left behind
by that: what was enqueued meanwhile is on a connection whose callback was requested, and
only the thread itself consumes it.
-/
namespace Rockets.Ws.Threads
open Function (update)

/-- The connection that a service thread is busy with. -/
def Entry.wsi : Entry → ℕ
  | .open wsi _ | .close wsi | .receive wsi => wsi

def Phase.wsi? : Phase → Option ℕ
  | .serving wsi | .writing wsi => some wsi
  | .callback entry _ => some entry.wsi
  | .service | .requesting _ => none

/-- The writable callback of the connection was consumed and has not returned. -/
def Phase.Serves (phase : Phase) (wsi : ℕ) : Prop := phase = .serving wsi ∨ phase = .writing wsi

/-- The operation has yet to set the flag of a service thread. -/
def Progress.Announces {n : ℕ} (t : Fin n) : Progress n → Prop
  | .locking _ => False
  | .enqueuing op _ => op.requestsBroadcast = true
  | .requesting rest => t ∈ rest

namespace State
variable {n : ℕ} {π : Type} {s : State n π}

def Announced (s : State n π) (t : Fin n) : Prop :=
  ∃ x, ∃ progress ∈ s.running x, progress.Announces t

/-- Somebody will see to the messages of a connection. -/
def Attended (s : State n π) (wsi : ℕ) (k : Socket n) : Prop :=
  k.writeRequested = true ∨ (s.phase k.tsi).Serves wsi ∨ s.broadcastRequested k.tsi = true ∨
    s.Announced k.tsi

/-- A thread that requests callbacks was told to, and has requested those of the connections
that it has passed. -/
structure Invariant (s : State n π) : Prop where
  flagged : ∀ {t rest}, s.phase t = .requesting rest → s.broadcastRequested t = true
  visited : ∀ {t rest w k}, s.phase t = .requesting rest → s.connections.find? w = some k →
    k.tsi = t → w ∈ rest ∨ k.writeRequested = true
  busy : ∀ {t w}, (s.phase t).wsi? = some w → ∃ k, s.connections.find? w = some k ∧ k.tsi = t
  attended : ∀ {w k}, s.connections.find? w = some k → k.hasMessage = true → s.Attended w k

theorem invariant_init (flags : Fin n → Bool) :
    Invariant { broadcastRequested := flags : State n π } :=
  ⟨nofun, nofun, nofun, nofun⟩

theorem Invariant.setMutex (h : Invariant s) (mutex : Option (Thread n π)) :
    Invariant { s with mutex } :=
  ⟨h.flagged, h.visited, h.busy, h.attended⟩

theorem Invariant.setRunning [DecidableEq π] (h : Invariant s) {x : Thread n π} {progress : Option (Progress n)}
    (hkeep : ∀ t, (∃ q ∈ s.running x, q.Announces t) →
      s.broadcastRequested t = true ∨ ∃ q ∈ progress, q.Announces t) :
    Invariant (s.setRunning x progress) where
  flagged := h.flagged
  visited := h.visited
  busy := h.busy
  attended {w k} hw hmessage := by
    rcases h.attended hw hmessage with hrequested | hserves | hflag | ⟨y, hy⟩
    · exact .inl hrequested
    · exact .inr (.inl hserves)
    · exact .inr (.inr (.inl hflag))
    · by_cases hyx : y = x
      · subst hyx
        refine .inr (.inr ((hkeep _ hy).imp_right fun hq => ⟨y, ?_⟩))
        simpa [State.setRunning] using hq
      · refine .inr (.inr (.inr ⟨y, ?_⟩))
        simpa [State.setRunning, hyx] using hy

/-- A thread turns to something else and leaves no connection that it served unattended. -/
theorem Invariant.setPhase (h : Invariant s) {t : Fin n} {phase : Phase}
    (hflag : ∀ rest, phase = .requesting rest → s.broadcastRequested t = true)
    (hvisited : ∀ rest w k, phase = .requesting rest → s.connections.find? w = some k →
      k.tsi = t → w ∈ rest ∨ k.writeRequested = true)
    (hbusy : ∀ w, phase.wsi? = some w → ∃ k, s.connections.find? w = some k ∧ k.tsi = t)
    (hserved : ∀ w k, (s.phase t).Serves w → s.connections.find? w = some k →
      k.hasMessage = true → phase.Serves w ∨ k.writeRequested = true) :
    Invariant (s.setPhase t phase) where
  flagged {u rest} hu := by
    by_cases hut : u = t
    · subst hut
      exact hflag rest (by simpa [State.setPhase] using hu)
    · exact h.flagged (by simpa [State.setPhase, hut] using hu)
  visited {u rest w k} hu hw hk := by
    by_cases hut : u = t
    · subst hut
      exact hvisited rest w k (by simpa [State.setPhase] using hu) hw hk
    · exact h.visited (by simpa [State.setPhase, hut] using hu) hw hk
  busy {u w} hu := by
    by_cases hut : u = t
    · subst hut
      exact hbusy w (by simpa [State.setPhase] using hu)
    · exact h.busy (by simpa [State.setPhase, hut] using hu)
  attended {w k} hw hmessage := by
    rcases h.attended hw hmessage with hrequested | hserves | hrest
    · exact .inl hrequested
    · by_cases hkt : k.tsi = t
      · subst hkt
        rcases hserved w k hserves hw hmessage with hphase | hrequested
        · exact .inr (.inl (by simpa [State.setPhase] using hphase))
        · exact .inl hrequested
      · exact .inr (.inl (by simpa [State.setPhase, hkt] using hserves))
    · exact .inr (.inr hrest)

/-- A connection is changed so that its callback stays requested, if it is not being served,
and that for a message that it is given is requested or will be. -/
theorem Invariant.onConnection (h : Invariant s) (wsi : ℕ) {f : Connection → Connection}
    (hkeep : ∀ k, s.connections.find? wsi = some k → k.writeRequested = true →
      (f k.toConnection).writeRequested = true ∨ (s.phase k.tsi).Serves wsi)
    (hmessage : ∀ k, s.connections.find? wsi = some k → (f k.toConnection).hasMessage = true →
      k.hasMessage = true ∨ (f k.toConnection).writeRequested = true ∨ s.Announced k.tsi) :
    Invariant (s.onConnection wsi f) := by
  have hfind : ∀ {w k}, (s.onConnection wsi f).connections.find? w = some k →
      ∃ k', s.connections.find? w = some k' ∧ k = if w = wsi then k'.update f else k' := by
    intro w k hk
    rw [find?_onConnection, Option.map_eq_some_iff] at hk
    obtain ⟨k', hk', heq⟩ := hk
    exact ⟨k', hk', heq.symm⟩
  exact
    { flagged := h.flagged
      visited := fun {t rest w k} ht hw hk => by
        obtain ⟨k', hw', rfl⟩ := hfind hw
        have hk' : k'.tsi = t := by
          rw [← hk]
          split_ifs <;> rfl
        refine (h.visited ht hw' hk').imp_right fun hrequested => ?_
        split_ifs with hv
        · subst hv
          refine (hkeep k' hw' hrequested).resolve_right fun hserves => ?_
          have ht : s.phase t = .requesting rest := ht
          rw [hk', ht] at hserves
          exact hserves.elim nofun nofun
        · exact hrequested
      busy := fun {t w} ht => by
        obtain ⟨k, hw, hk⟩ := h.busy ht
        refine ⟨_, by rw [find?_onConnection, hw]; rfl, ?_⟩
        dsimp only
        split_ifs <;> exact hk
      attended := fun {w k} hw hm => by
        obtain ⟨k', hw', rfl⟩ := hfind hw
        by_cases hv : w = wsi
        · subst hv
          rw [if_pos rfl] at hm ⊢
          rcases hmessage k' hw' hm with hm' | hrequested | hannounced
          · rcases h.attended hw' hm' with hrequested | hrest
            · exact (hkeep k' hw' hrequested).imp_right .inl
            · exact .inr hrest
          · exact .inl hrequested
          · exact .inr (.inr (.inr hannounced))
        · rw [if_neg hv] at hm ⊢
          exact h.attended hw' hm }

theorem Invariant.erase (h : Invariant s) {wsi : ℕ} (hfree : ∀ t, (s.phase t).wsi? ≠ some wsi) :
    Invariant { s with connections := s.connections.erase wsi } := by
  have hfind : ∀ {w k}, (s.connections.erase wsi).find? w = some k →
      s.connections.find? w = some k := by
    intro w k hw
    rw [OrderedMap.find?_erase] at hw
    split_ifs at hw
    exact hw
  exact
    { flagged := h.flagged
      visited := fun ht hw => h.visited ht (hfind hw)
      busy := fun {t w} ht => by
        obtain ⟨k, hw, hk⟩ := h.busy ht
        refine ⟨k, ?_, hk⟩
        rw [OrderedMap.find?_erase, if_neg, hw]
        rintro rfl
        exact hfree t ht
      attended := fun hw => h.attended (hfind hw) }

theorem Invariant.emplace (h : Invariant s) {wsi : ℕ} {k : Socket n} (hempty : k.out = [])
    (hidle : ∀ rest, s.phase k.tsi ≠ .requesting rest) (hfresh : s.connections.find? wsi = none) :
    Invariant { s with connections := s.connections.emplace wsi k } := by
  have hfind : ∀ {w j}, (s.connections.emplace wsi k).find? w = some j →
      w = wsi ∧ j = k ∨ s.connections.find? w = some j := by
    intro w j hw
    rw [OrderedMap.find?_emplace, hfresh] at hw
    split_ifs at hw with hv
    · exact .inl ⟨hv, (Option.some.inj hw).symm⟩
    · exact .inr hw
  exact
    { flagged := h.flagged
      visited := fun {t rest w j} ht hw hj => by
        rcases hfind hw with ⟨-, rfl⟩ | hw
        · exact absurd (hj ▸ ht) (hidle rest)
        · exact h.visited ht hw hj
      busy := fun {t w} ht => by
        obtain ⟨j, hw, hj⟩ := h.busy ht
        refine ⟨j, ?_, hj⟩
        have hv : w ≠ wsi := by
          rintro rfl
          simp [hfresh] at hw
        rw [OrderedMap.find?_emplace, if_neg hv, hw]
      attended := fun {w j} hw hm => by
        rcases hfind hw with ⟨-, rfl⟩ | hw
        · simp [Connection.hasMessage, hempty] at hm
        · exact h.attended hw hm }

/-- A service thread that serves no connection goes on to something but requesting. -/
theorem Invariant.turn (h : Invariant s) {t : Fin n} (phase : Phase)
    (ht : ∀ w, ¬ (s.phase t).Serves w) (hphase : ∀ rest, phase ≠ .requesting rest)
    (hbusy : ∀ w, phase.wsi? = some w → ∃ k, s.connections.find? w = some k ∧ k.tsi = t) :
    Invariant (s.setPhase t phase) :=
  h.setPhase (fun rest hp => absurd hp (hphase rest)) (fun rest _ _ hp => absurd hp (hphase rest))
    hbusy fun w _ hserves => absurd hserves (ht w)

variable {t : Fin n} {wsi : ℕ}

theorem not_serves_service (ht : s.phase t = .service) (w : ℕ) : ¬ (s.phase t).Serves w := by
  simp [Phase.Serves, ht]

theorem not_serves_callback {entry : Entry} {ops : List Operation}
    (ht : s.phase t = .callback entry ops) (w : ℕ) : ¬ (s.phase t).Serves w := by
  simp [Phase.Serves, ht]

theorem Invariant.enter (h : Invariant s) {entry : Entry} (ops : List Operation)
    (ht : s.phase t = .service) (he : s.EntryEnabled t entry) :
    Invariant (s.enter t entry ops) := by
  cases entry with
  | «open» wsi address =>
    have hnew := h.emplace (k := { address, serial := 0, tsi := t }) rfl (by simp [ht]) he.1
    refine (hnew.setMutex (some (.inl t))).turn _ (not_serves_service ht) nofun ?_
    rintro w ⟨⟩
    refine ⟨{ address, serial := 0, tsi := t }, ?_, rfl⟩
    simp [OrderedMap.find?_emplace, he.1, Entry.wsi]
  | close wsi | receive wsi =>
    refine (h.setMutex (some (.inl t))).turn _ (not_serves_service ht) nofun ?_
    rintro w ⟨⟩
    exact he

theorem Invariant.leave (h : Invariant s) {entry : Entry} {ops : List Operation}
    (ht : s.phase t = .callback entry ops) : Invariant (s.leave t entry) := by
  have hturn := (h.setMutex none).turn .service (not_serves_callback ht) nofun nofun
  cases entry with
  | close wsi =>
    refine hturn.erase fun u hu => ?_
    obtain ⟨k, hk, hkt⟩ := h.busy (t := t) (w := wsi) (by rw [ht]; rfl)
    obtain ⟨k', hk', hku⟩ := hturn.busy hu
    obtain rfl := Option.some.inj (hk.symm.trans hk')
    rw [← hku, hkt] at hu
    simp [State.setPhase, Phase.wsi?] at hu
  | «open» _ _ | receive _ => exact hturn

variable [DecidableEq π]

theorem Invariant.consume (h : Invariant s) (ht : s.phase t = .service)
    (hk : ∃ k ∈ s.connections.find? wsi, k.tsi = t ∧ k.writeRequested = true) :
    Invariant (s.next (.consume t wsi)) := by
  obtain ⟨k, hk, htsi, -⟩ := hk
  have hturn := h.turn (.serving wsi) (not_serves_service ht) nofun (by
    rintro w ⟨⟩
    exact ⟨k, hk, htsi⟩)
  refine hturn.onConnection wsi (fun k' hk' _ => .inr ?_) fun k' _ hm => .inl hm
  obtain rfl := Option.some.inj (hk.symm.trans hk')
  simp [State.setPhase, Phase.Serves, htsi]

theorem Invariant.lockWrite (h : Invariant s) (ht : s.phase t = .serving wsi) :
    Invariant (s.next (.lockWrite t)) := by
  simp only [State.next, ht]
  refine (h.setMutex (some (.inl t))).setPhase nofun nofun ?_ ?_
  · rintro w ⟨⟩
    exact h.busy (by rw [ht]; rfl)
  · rintro w k (hs | hs) hw hm
    · obtain rfl := Phase.serving.inj (ht.symm.trans hs)
      exact .inl (.inr rfl)
    · exact absurd (ht.symm.trans hs) nofun

theorem writeOneMessage_keeps (c : Connection) :
    c.writeOneMessage.writeRequested = c.writeRequested ∧
      (c.writeOneMessage.hasMessage = true → c.hasMessage = true) := by
  unfold Connection.writeOneMessage
  split
  · exact ⟨rfl, id⟩
  · rename_i hout
    exact ⟨rfl, fun _ => by simp [Connection.hasMessage, hout]⟩

theorem Invariant.write (h : Invariant s) (ht : s.phase t = .writing wsi) :
    Invariant (s.next (.write t)) := by
  simp only [State.next, ht]
  refine h.onConnection _ (fun k _ hrequested => .inl ?_) fun k _ hm => .inl ?_
  · exact (writeOneMessage_keeps _).1.trans hrequested
  · exact (writeOneMessage_keeps _).2 hm

theorem Invariant.unlockWrite (h : Invariant s) (ht : s.phase t = .writing wsi) :
    Invariant (s.next (.unlockWrite t)) := by
  simp only [State.next, ht]
  have hwritten : Invariant ({ s with mutex := none }.onConnection wsi fun c =>
      if c.hasMessage then c.requestWrite else c) := by
    refine (h.setMutex none).onConnection _ (fun k _ hrequested => .inl ?_) fun k _ hm => .inl ?_
    · split_ifs
      · rfl
      · exact hrequested
    · split_ifs at hm with hmessage
      · exact hmessage
      · exact hm
  refine hwritten.setPhase nofun nofun nofun ?_
  rintro w k (hs | hs) hw hm
  · exact absurd (ht.symm.trans hs) nofun
  · obtain rfl := Phase.writing.inj (ht.symm.trans hs)
    rw [find?_onConnection, Option.map_eq_some_iff] at hw
    obtain ⟨k', -, rfl⟩ := hw
    right
    simp only [if_true, Socket.update] at hm ⊢
    split_ifs at hm ⊢ with hmessage
    · rfl
    · exact absurd hm hmessage

theorem Invariant.readFlag (h : Invariant s) (ht : s.phase t = .service) :
    Invariant (s.next (.readFlag t)) := by
  simp only [State.next]
  split_ifs with hflag
  · refine h.setPhase (fun _ _ => hflag) ?_ nofun ?_
    · rintro rest w k ⟨⟩ hw -
      exact .inl (OrderedMap.contains_iff.mp (OrderedMap.contains_of_find? hw))
    · exact fun w k hs => absurd hs (not_serves_service ht w)
  · exact h

theorem Invariant.requestWrite (h : Invariant s) {rest : List ℕ}
    (ht : s.phase t = .requesting (wsi :: rest)) : Invariant (s.next (.requestWrite t)) := by
  simp only [State.next, ht]
  have hrequested := h.onConnection wsi (f := Connection.requestWrite)
    (fun _ _ _ => .inl rfl) fun _ _ _ => .inr (.inl rfl)
  refine hrequested.setPhase (fun _ _ => h.flagged ht) ?_ nofun ?_
  · rintro rest' w k ⟨⟩ hw hk
    have ht' : (s.onConnection wsi Connection.requestWrite).phase t = .requesting (wsi :: rest) :=
      ht
    rcases hrequested.visited ht' hw hk with hmem | hmem
    · rcases List.mem_cons.mp hmem with rfl | hmem
      · right
        rw [find?_onConnection, Option.map_eq_some_iff] at hw
        obtain ⟨k', -, rfl⟩ := hw
        simp [Socket.update, Connection.requestWrite]
      · exact .inl hmem
    · exact .inr hmem
  · rintro w k (hs | hs) <;> exact absurd (ht.symm.trans hs) nofun

/-- The flag is cleared when the callbacks of all connections of the thread are requested. -/
theorem Invariant.clearFlag (h : Invariant s) (ht : s.phase t = .requesting []) :
    Invariant (s.next (.clearFlag t)) := by
  have hall : ∀ {w k}, s.connections.find? w = some k → k.tsi = t → k.writeRequested = true :=
    fun hw hk => (h.visited ht hw hk).resolve_left List.not_mem_nil
  have hphase : ∀ {u}, u ≠ t → (s.next (.clearFlag t)).phase u = s.phase u :=
    fun hu => Function.update_of_ne hu _ _
  have hphase' : (s.next (.clearFlag t)).phase t = .service := Function.update_self t _ _
  have hflag : ∀ {u}, u ≠ t →
      (s.next (.clearFlag t)).broadcastRequested u = s.broadcastRequested u :=
    fun hu => Function.update_of_ne hu _ _
  exact
    { flagged := fun {u rest} hu => by
        by_cases hut : u = t
        · subst hut
          cases hphase'.symm.trans hu
        · rw [hflag hut]
          exact h.flagged ((hphase hut).symm.trans hu)
      visited := fun {u rest w k} hu hw hk => by
        by_cases hut : u = t
        · subst hut
          cases hphase'.symm.trans hu
        · exact h.visited ((hphase hut).symm.trans hu) hw hk
      busy := fun {u w} hu => by
        by_cases hut : u = t
        · subst hut
          rw [hphase'] at hu
          cases hu
        · rw [hphase hut] at hu
          exact h.busy hu
      attended := fun {w k} hw hm => by
        by_cases hkt : k.tsi = t
        · exact .inl (hall hw hkt)
        · rcases h.attended hw hm with hrequested | hs | hf | hannounced
          · exact .inl hrequested
          · exact .inr (.inl (by rw [hphase hkt]; exact hs))
          · exact .inr (.inr (.inl (by rw [hflag hkt]; exact hf)))
          · exact .inr (.inr (.inr hannounced)) }

theorem Invariant.setFlag (h : Invariant s) {x : Thread n π} {rest : List (Fin n)}
    (hx : s.running x = some (.requesting (t :: rest))) : Invariant (s.next (.setFlag x)) := by
  simp only [State.next, hx]
  have hmono : ∀ {u}, s.broadcastRequested u = true →
      update s.broadcastRequested t true u = true := by
    intro u hu
    rw [Function.update_apply]
    split_ifs
    · rfl
    · exact hu
  have hset : Invariant { s with broadcastRequested := update s.broadcastRequested t true } :=
    ⟨fun hu => hmono (h.flagged hu), h.visited, h.busy, fun hw hm =>
      (h.attended hw hm).imp_right (Or.imp_right (Or.imp_left hmono))⟩
  refine hset.setRunning fun u hu => ?_
  obtain ⟨q, hq, hannounces⟩ := hu
  obtain rfl := Option.some.inj (hx.symm.trans hq)
  rcases List.mem_cons.mp hannounces with rfl | hmem
  · exact .inl (Function.update_self u _ _)
  · exact .inr ⟨_, rfl, hmem⟩

theorem Invariant.enqueue (h : Invariant s) {x : Thread n π} {op : Operation} {rest : List ℕ}
    (hx : s.running x = some (.enqueuing op (wsi :: rest))) :
    Invariant (s.next (.enqueue x)) := by
  simp only [State.next, hx]
  have hvisit : Invariant (s.onConnection wsi op.visit) := by
    refine h.onConnection _ (fun k _ hk => .inl (by rw [op.writeRequested_visit, hk]))
      fun k _ hm => ?_
    cases hop : op.requestsBroadcast with
    | true => exact .inr (.inr ⟨x, _, hx, hop⟩)
    | false => exact .inl (by rwa [Operation.visit_of_silent hop] at hm)
  refine hvisit.setRunning fun u hu => ?_
  obtain ⟨q, hq, hannounces⟩ := hu
  obtain rfl := Option.some.inj (hx.symm.trans hq)
  exact .inr ⟨_, rfl, hannounces⟩

theorem Invariant.next (h : Invariant s) {e : Event n π} (he : s.Enabled e) :
    Invariant (s.next e) := by
  cases e with
  | begin p op =>
    refine h.setRunning fun u hu => ?_
    obtain ⟨q, hq, -⟩ := hu
    exact absurd (he.symm.trans hq) nofun
  | lock x =>
    obtain ⟨-, op, hx⟩ := he
    simp only [State.next, hx]
    refine (h.setMutex (some x)).setRunning fun u hu => ?_
    obtain ⟨q, hq, hannounces⟩ := hu
    obtain rfl := Option.some.inj (hx.symm.trans hq)
    exact hannounces.elim
  | enqueue x =>
    obtain ⟨op, wsi, rest, hx⟩ := he
    exact h.enqueue hx
  | request x =>
    obtain ⟨op, hx⟩ := he
    simp only [State.next, hx]
    refine h.setRunning fun u hu => ?_
    obtain ⟨q, hq, hannounces⟩ := hu
    obtain rfl := Option.some.inj (hx.symm.trans hq)
    refine .inr ⟨_, rfl, ?_⟩
    have hop : op.requestsBroadcast = true := hannounces
    simp [Progress.Announces, hop]
  | setFlag x =>
    obtain ⟨tsi, rest, hx⟩ := he
    exact h.setFlag hx
  | unlock x =>
    refine (h.setMutex none).setRunning fun u hu => ?_
    obtain ⟨q, hq, hannounces⟩ := hu
    obtain rfl := Option.some.inj (he.symm.trans hq)
    exact absurd hannounces List.not_mem_nil
  | enter t entry ops => exact h.enter ops he.2.1 he.2.2
  | perform t =>
    obtain ⟨hnone, entry, op, ops, ht⟩ := he
    simp only [State.next, ht]
    have hturn := h.turn (.callback entry ops) (not_serves_callback ht) nofun fun w hw =>
      h.busy (by rw [ht]; exact hw)
    refine hturn.setRunning fun u hu => ?_
    obtain ⟨q, hq, -⟩ := hu
    exact absurd (hnone.symm.trans hq) nofun
  | reply t wsi message =>
    exact h.onConnection _ (fun _ _ _ => .inl rfl) fun _ _ _ => .inr (.inl rfl)
  | leave t =>
    obtain ⟨-, entry, ht⟩ := he
    simp only [State.next, ht]
    exact h.leave ht
  | consume t wsi => exact h.consume he.1 he.2
  | lockWrite t =>
    obtain ⟨-, wsi, ht⟩ := he
    exact h.lockWrite ht
  | write t =>
    obtain ⟨wsi, ht, -⟩ := he
    exact h.write ht
  | unlockWrite t =>
    obtain ⟨wsi, ht⟩ := he
    exact h.unlockWrite ht
  | readFlag t => exact h.readFlag he
  | requestWrite t =>
    obtain ⟨wsi, rest, ht⟩ := he
    exact h.requestWrite ht
  | clearFlag t => exact h.clearFlag he

theorem invariant_run {flags : Fin n → Bool} {es : List (Event n π)}
    (h : (machine flags).Run es s) : Invariant s :=
  h.invariant (invariant_init flags) fun _ _ hs he _ => hs.next he

/-- Where no operation is enqueuing, the thread of a connection with messages will be told to
write them. -/
def NoneLost (s : State n π) : Prop :=
  (∀ x, ∀ progress ∈ s.running x, ∃ op, progress = .locking op) →
    ∀ w k, s.connections.find? w = some k → k.hasMessage = true →
      k.writeRequested = true ∨ (s.phase k.tsi).Serves w ∨ s.broadcastRequested k.tsi = true

theorem no_broadcast_lost {flags : Fin n → Bool} {es : List (Event n π)}
    (h : (machine flags).Run es s) : NoneLost s := by
  intro hidle w k hw hm
  rcases (invariant_run h).attended hw hm with hrequested | hserves | hflag | ⟨x, q, hq, ha⟩
  · exact .inl hrequested
  · exact .inr (.inl hserves)
  · exact .inr (.inr hflag)
  · obtain ⟨op, rfl⟩ := hidle x q hq
    exact ha.elim

end State

/-- The second broadcast comes between the callback that the first one requests and the
clearing of the flag. -/
def overtaken : List (Event 1 Unit) :=
  let broadcast : List (Event 1 Unit) := [.begin () (.broadcastText []), .lock (.inr ()), .enqueue (.inr ()),
    .request (.inr ()), .setFlag (.inr ()), .unlock (.inr ())]
  [.enter 0 (.open 7 100) [], .leave 0] ++ broadcast ++ [.readFlag 0, .requestWrite 0] ++
    broadcast ++ [.clearFlag 0]

theorem no_broadcast_lost_overtaken :
    ∃ s, (machine fun _ => false).Run overtaken s ∧ s.NoneLost := by
  have hrun : (machine fun _ => false).Run overtaken
      (overtaken.foldl (·.next ·) { broadcastRequested := fun _ => false }) := by
    refine .cons ⟨rfl, rfl, rfl, nofun⟩ trivial (.cons ⟨rfl, _, rfl⟩ trivial ?_)
    refine .cons rfl trivial (.cons ⟨rfl, _, rfl⟩ trivial (.cons ⟨_, _, _, rfl⟩ trivial ?_))
    refine .cons ⟨_, rfl⟩ trivial (.cons ⟨_, _, rfl⟩ trivial (.cons rfl trivial ?_))
    refine .cons rfl trivial (.cons ⟨_, _, rfl⟩ trivial ?_)
    refine .cons rfl trivial (.cons ⟨rfl, _, rfl⟩ trivial (.cons ⟨_, _, _, rfl⟩ trivial ?_))
    refine .cons ⟨_, rfl⟩ trivial (.cons ⟨_, _, rfl⟩ trivial (.cons rfl trivial ?_))
    exact .cons rfl trivial .nil
  exact ⟨_, hrun, State.no_broadcast_lost hrun⟩

end Rockets.Ws.Threads
