import Rockets.HttpClient

set_option autoImplicit false

/-!
# Callbacks of HTTP requests

Every request is told its end once: whatever signals it first takes the request out of the
table. A request that a callback starts while the client is shut down is only told if the
walk through the table is still to come to it.
-/
namespace Rockets.Http.Client

/-- The requests whose callback has been invoked, though they are still in the table. -/
def notified : Option Serving → ℕ → Prop
  | some (.finish v), w | some (.abort v), w => w = v
  | some (.shutdown v), w => w ≤ v
  | none, _ => False

namespace State

def Notified (s : State) (w : ℕ) : Prop := notified s.serving w

/-- A chunk of a body is only read for a request that is pending, and a request that is
started while the client is shut down has a connection that the walk is still to come to. -/
def Regular (s : State) : Event → Prop
  | .request (some wsi) => match s.serving with
    | some (.shutdown v) => v < wsi
    | _ => True
  | .lws wsi (.read _) => s.requests.contains wsi = true
  | _ => True

instance (s : State) (e : Event) : Decidable (s.Regular e) :=
  match e with
  | .request none | .ret | .destroy | .lws _ (.established _) | .lws _ .completed
  | .lws _ .closed | .lws _ (.connectionError _ _) => isTrue trivial
  | .lws _ (.read _) => inferInstanceAs (Decidable (_ = _))
  | .request (some wsi) => match h : s.serving with
    | some (.shutdown v) => decidable_of_iff (v < wsi) (by simp [Regular, h])
    | some (.finish _) | some (.abort _) | none => isTrue (by simp [Regular, h])

/-- The requests in the table are those that no callback was told of, but for those being
told now. -/
structure Consistent (s : State) : Prop where
  defined : s.isUndefined = false
  known : ∀ {w r}, s.requests.find? w = some r → r.call < s.calls
  told : ∀ {w r}, s.requests.find? w = some r → s.Notified w → s.count r.call = 1
  untold : ∀ {w r}, s.requests.find? w = some r → ¬ s.Notified w → s.count r.call = 0
  own : ∀ {w v r q}, s.requests.find? w = some r → s.requests.find? v = some q →
    r.call = q.call → w = v
  started : ∀ {c}, c < s.calls → s.count c = 1 ∨
    s.count c = 0 ∧ ∃ w r, s.requests.find? w = some r ∧ r.call = c
  later : ∀ {c}, s.calls ≤ c → s.count c = 0
  held : ∀ {w}, s.serving = some (.finish w) ∨ s.serving = some (.abort w) →
    s.requests.contains w = true
  ended : s.isDestroyed = true → s.requests = ∅ ∧ ∀ c < s.calls, s.count c = 1

section Steps
variable {s : State} {w c : ℕ} {r : RequestHandler}

theorem count_invoke (s : State) (c d : ℕ) (o : Outcome) :
    (s.invoke c o).count d = s.count d + if d = c then 1 else 0 := by
  have h : (c == d) = decide (d = c) := by
    rw [Bool.eq_iff_iff, beq_iff_eq, decide_eq_true_eq]
    exact eq_comm
  simp [State.count, State.invoke, List.countP_append, h]

theorem consistent_init : Consistent {} where
  defined := rfl
  known := nofun
  told := nofun
  untold := nofun
  own := nofun
  started := fun hc => absurd hc (Nat.not_lt_zero _)
  later := fun _ => rfl
  held := nofun
  ended := nofun

theorem Consistent.find?_of_isDestroyed (h : Consistent s) (hd : s.isDestroyed = true) :
    s.requests.find? w ≠ some r := by
  rw [(h.ended hd).1]
  simp

/-- The entry of a request may change, but not whose request it is. -/
theorem Consistent.set (h : Consistent s) (hw : s.requests.find? w = some r)
    {r' : RequestHandler} (hcall : r'.call = r.call) :
    Consistent { s with requests := s.requests.set w r' } := by
  have hfind : ∀ {v q}, (s.requests.set w r').find? v = some q →
      ∃ q', s.requests.find? v = some q' ∧ q.call = q'.call := by
    intro v q hq
    rw [OrderedMap.find?_set] at hq
    split_ifs at hq with hv
    · obtain rfl := Option.some.inj hq
      exact ⟨r, by rw [hv, hw], hcall⟩
    · exact ⟨q, hq, rfl⟩
  exact
    { defined := h.defined
      known := fun hq => by
        obtain ⟨q', hq', heq⟩ := hfind hq
        rw [heq]
        exact h.known hq'
      told := fun hq hn => by
        obtain ⟨q', hq', heq⟩ := hfind hq
        rw [heq]
        exact h.told hq' hn
      untold := fun hq hn => by
        obtain ⟨q', hq', heq⟩ := hfind hq
        rw [heq]
        exact h.untold hq' hn
      own := fun hq hp heq => by
        obtain ⟨q', hq', hqcall⟩ := hfind hq
        obtain ⟨p', hp', hpcall⟩ := hfind hp
        exact h.own hq' hp' (by rw [← hqcall, ← hpcall, heq])
      started := fun hc => by
        refine (h.started hc).imp_right ?_
        rintro ⟨hzero, v, q, hq, rfl⟩
        refine ⟨hzero, v, ?_⟩
        by_cases hv : v = w
        · subst hv
          obtain rfl := Option.some.inj (hw.symm.trans hq)
          exact ⟨r', by simp, hcall⟩
        · exact ⟨q, by simpa [hv] using hq, rfl⟩
      later := h.later
      held := fun hv => by
        have hc := h.held hv
        simp only [OrderedMap.contains, OrderedMap.find?_set] at hc ⊢
        split_ifs
        · rfl
        · exact hc
      ended := fun hd => absurd hw (h.find?_of_isDestroyed hd) }

/-- A callback of a request is invoked for the first time. -/
theorem Consistent.notify (h : Consistent s) (hw : s.requests.find? w = some r)
    (hno : ¬ s.Notified w) (o : Outcome) {serving : Option Serving}
    (hserving : ∀ {v q}, s.requests.find? v = some q →
      (notified serving v ↔ s.Notified v ∨ v = w))
    (hheld : ∀ {v}, serving = some (.finish v) ∨ serving = some (.abort v) → v = w) :
    Consistent { s.invoke r.call o with serving := serving } := by
  have hcount : ∀ d, State.count { s.invoke r.call o with serving := serving } d =
      s.count d + if d = r.call then 1 else 0 := fun d => count_invoke s r.call d o
  exact
    { defined := h.defined
      known := h.known
      told := fun {v q} hq hn => by
        rw [hcount]
        rcases (hserving hq).mp hn with hn | rfl
        · have hne : q.call ≠ r.call := by
            intro heq
            exact hno (h.own hq hw heq ▸ hn)
          rw [if_neg hne, h.told hq hn]
        · obtain rfl := Option.some.inj (hw.symm.trans hq)
          rw [if_pos rfl, h.untold hw hno]
      untold := fun {v q} hq hn => by
        have hn' := not_or.mp (mt (hserving hq).mpr hn)
        have hne : q.call ≠ r.call := fun heq => hn'.2 (h.own hq hw heq)
        rw [hcount, if_neg hne, h.untold hq hn'.1]
      own := h.own
      started := fun {c} hc => by
        rw [hcount]
        by_cases hcall : c = r.call
        · left
          rw [if_pos hcall, hcall, h.untold hw hno]
        · rw [if_neg hcall]
          exact h.started hc
      later := fun {c} hc => by
        have hknown := h.known hw
        have hle : s.calls ≤ c := hc
        rw [hcount, h.later hle, if_neg (by omega)]
      held := fun hv => by
        rw [hheld hv]
        exact OrderedMap.contains_of_find? hw
      ended := fun hd => absurd hw (h.find?_of_isDestroyed hd) }

theorem Consistent.finishRequest (h : Consistent s) (hidle : s.serving = none) (w : ℕ) :
    Consistent (s.finishRequest w) := by
  unfold State.finishRequest
  cases hw : s.requests.find? w with
  | none => exact h
  | some r =>
    refine h.notify hw (by simp [Notified, hidle, notified]) _ ?_ (by simp [eq_comm])
    simp [Notified, hidle, notified]

theorem Consistent.abortRequest (h : Consistent s) (hidle : s.serving = none) (w : ℕ)
    (reason : Bytes) : Consistent (s.abortRequest w reason) := by
  unfold State.abortRequest
  cases hw : s.requests.find? w with
  | none => exact h
  | some r =>
    refine h.notify hw (by simp [Notified, hidle, notified]) _ ?_ (by simp [eq_comm])
    simp [Notified, hidle, notified]

theorem Consistent.close (h : Consistent s) (w : ℕ) : Consistent (s.close w) :=
  ⟨h.defined, h.known, h.told, h.untold, h.own, h.started, h.later, h.held, h.ended⟩

theorem Consistent.readHeaders (h : Consistent s) (w : ℕ) (head : Head) :
    Consistent (s.readHeaders w head) := by
  unfold State.readHeaders
  cases hw : s.requests.find? w with
  | none => exact h
  | some r => exact h.set hw rfl

theorem readHeaders_serving (s : State) (w : ℕ) (head : Head) :
    (s.readHeaders w head).serving = s.serving := by
  unfold State.readHeaders
  split <;> rfl

theorem Consistent.callbackHttp (h : Consistent s) (hidle : s.serving = none)
    {reason : Reason} (hreg : s.Regular (.lws w reason)) :
    Consistent (s.callbackHttp w reason) := by
  cases reason with
  | established head =>
    have hidle' := (readHeaders_serving s w head).trans hidle
    have hread := h.readHeaders w head
    simp only [State.callbackHttp]
    split
    · exact hread
    · split_ifs
      · exact hread
      · exact (hread.finishRequest hidle' w).close w
  | read data =>
    obtain ⟨r, hw⟩ := Option.isSome_iff_exists.mp hreg
    simp only [State.callbackHttp, hw]
    exact h.set hw rfl
  | completed => exact h.finishRequest hidle w
  | closed => exact h.abortRequest hidle w []
  | connectionError message head =>
    have hidle' := (readHeaders_serving s w head).trans hidle
    simp only [State.callbackHttp]
    split_ifs
    · exact ((h.readHeaders w head).finishRequest hidle' w).close w
    · exact (h.abortRequest hidle w message).close w

theorem Consistent.startRequest_none (h : Consistent s) (halive : s.isDestroyed = false) :
    Consistent (s.startRequest none) := by
  have hcount : ∀ d, (s.startRequest none).count d = s.count d + if d = s.calls then 1 else 0 :=
    fun d => count_invoke s s.calls d _
  have hother : ∀ {v q}, s.requests.find? v = some q → (s.startRequest none).count q.call =
      s.count q.call := by
    intro v q hq
    rw [hcount, if_neg (h.known hq).ne, Nat.add_zero]
  exact
    { defined := h.defined
      known := fun hq => (h.known hq).trans (Nat.lt_succ_self _)
      told := fun hq hn => (hother hq).trans (h.told hq hn)
      untold := fun hq hn => (hother hq).trans (h.untold hq hn)
      own := h.own
      started := fun {c} hc => by
        rw [hcount]
        rcases Nat.lt_succ_iff_lt_or_eq.mp hc with hc | rfl
        · rw [if_neg hc.ne]
          exact h.started hc
        · left
          rw [if_pos rfl, h.later le_rfl]
      later := fun {c} hc => by
        have hc : s.calls + 1 ≤ c := hc
        rw [hcount, h.later (by omega), if_neg (by omega)]
      held := h.held
      ended := fun hd => by
        have hd : s.isDestroyed = true := hd
        simp [halive] at hd }

theorem Consistent.startRequest_some (h : Consistent s) (halive : s.isDestroyed = false)
    (hfresh : s.requests.contains w = false) (hreg : s.Regular (.request (some w))) :
    Consistent (s.startRequest (some w)) := by
  have hnone : s.requests.find? w = none := by simpa [OrderedMap.contains] using hfresh
  have hfind : ∀ v, (s.startRequest (some w)).requests.find? v =
      if v = w then some { call := s.calls } else s.requests.find? v := by
    intro v
    simp only [State.startRequest, OrderedMap.find?_emplace, hnone, Option.none_or]
  -- the walk through the table has not passed the new entry
  have hno : ¬ s.Notified w := by
    unfold Notified
    cases hserving : s.serving with
    | none => exact id
    | some serving =>
      cases serving with
      | finish v =>
        rintro rfl
        exact absurd (h.held (.inl hserving)) (by simp [hfresh])
      | abort v =>
        rintro rfl
        exact absurd (h.held (.inr hserving)) (by simp [hfresh])
      | shutdown v =>
        simp only [Regular, hserving] at hreg
        simpa [notified] using hreg
  have hcases : ∀ {v q}, (s.startRequest (some w)).requests.find? v = some q →
      v = w ∧ q = { call := s.calls } ∨ v ≠ w ∧ s.requests.find? v = some q := by
    intro v q hq
    rw [hfind] at hq
    split_ifs at hq with hv
    · exact .inl ⟨hv, (Option.some.inj hq).symm⟩
    · exact .inr ⟨hv, hq⟩
  exact
    { defined := h.defined
      known := fun hq => by
        rcases hcases hq with ⟨rfl, rfl⟩ | ⟨-, hq⟩
        · exact Nat.lt_succ_self _
        · exact (h.known hq).trans (Nat.lt_succ_self _)
      told := fun hq hn => by
        rcases hcases hq with ⟨rfl, rfl⟩ | ⟨-, hq⟩
        · exact absurd hn hno
        · exact h.told hq hn
      untold := fun hq hn => by
        rcases hcases hq with ⟨rfl, rfl⟩ | ⟨-, hq⟩
        · exact h.later le_rfl
        · exact h.untold hq hn
      own := fun hq hp heq => by
        rcases hcases hq with ⟨hv, rfl⟩ | ⟨-, hq⟩
        · rcases hcases hp with ⟨hu, rfl⟩ | ⟨-, hp⟩
          · rw [hv, hu]
          · exact absurd heq (h.known hp).ne'
        · rcases hcases hp with ⟨hu, rfl⟩ | ⟨-, hp⟩
          · exact absurd heq (h.known hq).ne
          · exact h.own hq hp heq
      started := fun {c} hc => by
        rcases Nat.lt_succ_iff_lt_or_eq.mp hc with hc | rfl
        · refine (h.started hc).imp_right ?_
          rintro ⟨hzero, v, q, hq, hcall⟩
          refine ⟨hzero, v, q, ?_, hcall⟩
          have hv : v ≠ w := by
            rintro rfl
            simp [hnone] at hq
          rw [hfind, if_neg hv]
          exact hq
        · exact .inr ⟨h.later le_rfl, w, _, by rw [hfind, if_pos rfl], rfl⟩
      later := fun {c} hc => by
        have hc : s.calls + 1 ≤ c := hc
        exact h.later (by omega)
      held := fun {v} hv => by
        have hc := h.held hv
        simp only [OrderedMap.contains, hfind] at hc ⊢
        split_ifs
        · rfl
        · exact hc
      ended := fun hd => by
        have hd : s.isDestroyed = true := hd
        simp [halive] at hd }

theorem Consistent.erase (h : Consistent s)
    (hserving : s.serving = some (.finish w) ∨ s.serving = some (.abort w)) :
    Consistent { s with requests := s.requests.erase w, serving := none } := by
  have hnotified : ∀ v, s.Notified v ↔ v = w := by
    intro v
    rcases hserving with hserving | hserving <;> simp [Notified, hserving, notified]
  have hfind : ∀ {v q}, (s.requests.erase w).find? v = some q →
      v ≠ w ∧ s.requests.find? v = some q := by
    intro v q hq
    rw [OrderedMap.find?_erase] at hq
    split_ifs at hq with hv
    exact ⟨hv, hq⟩
  exact
    { defined := h.defined
      known := fun hq => h.known (hfind hq).2
      told := fun _ hn => hn.elim
      untold := fun hq _ => h.untold (hfind hq).2 (mt (hnotified _).mp (hfind hq).1)
      own := fun hq hp => h.own (hfind hq).2 (hfind hp).2
      started := fun hc => by
        rcases h.started hc with hone | ⟨hzero, v, q, hq, rfl⟩
        · exact .inl hone
        · have hv : v ≠ w := by
            intro hv
            have hone := h.told hq ((hnotified v).mpr hv)
            have hzero : s.count q.call = 0 := hzero
            omega
          refine .inr ⟨hzero, v, q, ?_, rfl⟩
          rw [OrderedMap.find?_erase, if_neg hv]
          exact hq
      later := h.later
      held := by simp
      ended := fun hd => by
        obtain ⟨r, hw⟩ := Option.isSome_iff_exists.mp (h.held hserving)
        exact absurd hw (h.find?_of_isDestroyed hd) }

/-- The walk goes on to the next request, or has told all there are. -/
theorem Consistent.abortPending (h : Consistent s)
    {e : Option (ℕ × RequestHandler)}
    (hnone : e = none → ∀ {v q}, s.requests.find? v = some q → s.Notified v)
    (hsome : ∀ w r, e = some (w, r) → s.requests.find? w = some r ∧ ¬ s.Notified w ∧
      ∀ {v q}, s.requests.find? v = some q → (v ≤ w ↔ s.Notified v ∨ v = w)) :
    Consistent (s.abortPending e) := by
  cases e with
  | some e =>
    obtain ⟨w, r⟩ := e
    obtain ⟨hw, hno, hle⟩ := hsome w r rfl
    exact h.notify hw hno _ (fun hq => hle hq) (by simp)
  | none =>
    have hall : ∀ {c}, c < s.calls → s.count c = 1 := by
      intro c hc
      rcases h.started hc with hone | ⟨-, v, q, hq, rfl⟩
      · exact hone
      · exact h.told hq (hnone rfl hq)
    exact
      { defined := h.defined
        known := by simp [State.abortPending]
        told := by simp [State.abortPending]
        untold := by simp [State.abortPending]
        own := fun hq => by simp [State.abortPending] at hq
        started := fun hc => .inl (hall hc)
        later := h.later
        held := by simp [State.abortPending]
        ended := fun _ => ⟨rfl, fun c hc => hall hc⟩ }

theorem Consistent.ret (h : Consistent s) : Consistent s.ret := by
  unfold State.ret
  split
  · exact ⟨h.defined, h.known, h.told, h.untold, h.own, h.started, h.later, h.held, h.ended⟩
  · split
    · rename_i hserving
      exact h.erase (.inl hserving)
    · rename_i hserving
      exact h.erase (.inr hserving)
    · rename_i v hserving
      have hnotified : ∀ w, s.Notified w ↔ w ≤ v := by simp [Notified, hserving, notified]
      refine h.abortPending ?_ ?_
      · intro hnone w q hq
        rw [hnotified]
        exact OrderedMap.next?_eq_none hnone hq
      · intro w r hsome
        obtain ⟨hlt, hfind, hnext⟩ := OrderedMap.next?_eq_some hsome
        refine ⟨hfind, by rw [hnotified]; omega, fun {u q} hq => ?_⟩
        rw [hnotified]
        have hnext := hnext u q hq
        simp only at hlt hnext
        omega
    · exact h

theorem Consistent.destroy (h : Consistent s) (hidle : s.serving = none) :
    Consistent (s.abortPending s.requests.begin?) := by
  have hno : ∀ w, ¬ s.Notified w := by simp [Notified, hidle, notified]
  refine h.abortPending ?_ ?_
  · intro hnone w q hq
    rw [OrderedMap.begin?_eq_none hnone] at hq
    cases hq
  · intro w r hsome
    obtain ⟨hfind, hfirst⟩ := OrderedMap.begin?_eq_some hsome
    refine ⟨hfind, hno w, fun {u q} hq => ?_⟩
    have hfirst := hfirst u q hq
    simp only at hfirst
    have := hno u
    constructor
    · intro hle
      exact .inr (by omega)
    · rintro (hn | rfl)
      · exact absurd hn this
      · exact le_rfl

theorem serving_of_isIdle (h : s.isIdle = true) : s.serving = none := by
  simp only [State.isIdle, Bool.and_eq_true, Option.isNone_iff_eq_none] at h
  exact h.1

theorem Consistent.next (h : Consistent s) {e : Event} (he : s.Enabled e) (hreg : s.Regular e) :
    Consistent (s.next e) := by
  cases e with
  | request wsi =>
    cases wsi with
    | none => exact h.startRequest_none he
    | some w => exact h.startRequest_some he.1 he.2 hreg
  | lws w reason => exact h.callbackHttp (serving_of_isIdle he) hreg
  | ret => exact h.ret
  | destroy => exact h.destroy (serving_of_isIdle he.2)

theorem consistent_run {es : List Event} (h : machine.Guarded State.Regular es s) :
    Consistent s :=
  h.invariant consistent_init fun _ _ hs he hreg => hs.next he hreg

/-- No request is told twice, and when the client is gone every request has been told. -/
def Told (s : State) : Prop :=
  s.isUndefined = false ∧ (∀ c, s.count c ≤ 1) ∧
    (s.isDestroyed = true → ∀ c < s.calls, s.count c = 1)

theorem Consistent.told_once (h : Consistent s) : Told s := by
  refine ⟨h.defined, fun c => ?_, fun hd => (h.ended hd).2⟩
  by_cases hc : c < s.calls
  · rcases h.started hc with hone | ⟨hzero, -⟩ <;> omega
  · have := h.later (Nat.le_of_not_lt hc)
    omega

theorem callbacks_told_once {es : List Event} (h : machine.Guarded State.Regular es s) :
    Told s :=
  (consistent_run h).told_once

end Steps

/-- The error callback of the first request, told of the shutdown, makes another request. -/
def retry (wsi : ℕ) : List Event := [.request (some 5), .destroy, .request (some wsi), .ret]

theorem callbacks_told_once_retry :
    ∃ s, machine.Guarded State.Regular (retry 7 ++ [.ret]) s ∧ Told s := by
  have h := Machine.Path.of_isSome (M := machine) (G := State.Regular) {} (retry 7 ++ [.ret])
    (by decide +kernel)
  exact ⟨_, h, callbacks_told_once h⟩

theorem retry_untold : ¬ ∀ es s, machine.Run es s → Told s := by
  intro hall
  have h := Machine.Path.of_isSome (M := machine) (G := fun _ _ => True) {} (retry 3)
    (by decide +kernel)
  have hone := (hall _ _ h).2.2 (by decide +kernel) 1 (by decide +kernel)
  revert hone
  decide +kernel

end State
end Rockets.Http.Client
