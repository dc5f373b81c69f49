import Rockets.JsonRpcRequesterResponses

set_option autoImplicit false

/-!
# Requests that fail

What a call of `request` that exits by an exception leaves behind in the requester.
-/
namespace Rockets.JsonRpc.Requester
variable {lib : JsonLib} {s : State} {method : Bytes} {params : Text} {c : ℕ}

/-- A call of `request` exits by an exception, before it has called anything or because the
code it has called throws: the states between which that code ran, and the one at the exit. -/
inductive Exits (lib : JsonLib) (s : State) (method : Bytes) (params : Text) :
    State → State → State → Prop where
  | atOnce (uncalled : (s.request lib method params).stack = s.stack) :
      Exits lib s method params (s.request lib method params) (s.request lib method params)
        (s.request lib method params)
  | thrown {es : List Event} {t : State} {e : Exn}
      (calls : (s.request lib method params).stack.length = s.stack.length + 1)
      (called : (machine lib).Path (Inside lib (s.stack.length + 1))
        (s.request lib method params) es t)
      (throws : t.Enabled (.raise e)) (uncaught : (t.raise e).stack.length = s.stack.length) :
      Exits lib s method params (s.request lib method params) t (t.raise e)

/-- However the call exits by an exception, table and counter are as before unless the code
it has called has changed them, and the callback is not invoked any more. -/
def State.FailsAtomically (lib : JsonLib) (s : State) (method : Bytes) (params : Text) : Prop :=
  ∀ t t' u, Exits lib s method params t t' u →
    (t'.impl = t.impl → u.impl = s.impl) ∧
    ∀ es v, (machine lib).Path (fun _ _ => True) u es v →
      v.count s.calls.length = u.count s.calls.length

/-- Nothing that is kept leads to the callback of a call. -/
structure State.Unreachable (s : State) (c : ℕ) : Prop where
  pending : ∀ id, s.pending id ≠ some c
  stack : ∀ id, Frame.send c id ∉ s.stack

section Steps
variable {e : Event}

theorem alive_request (s : State) (method : Bytes) (params : Text) :
    (s.request lib method params).isDestroyed = s.isDestroyed :=
  s.alive_next (e := .request method params) nofun

theorem calls_request (s : State) (method : Bytes) (params : Text) :
    (s.request lib method params).calls = s.calls ++ [(method, params)] := by
  rcases s.request_cases lib method params with
    ⟨what, -, heq⟩ | ⟨e, -, -, heq⟩ | ⟨ps, -, ⟨-, heq⟩ | ⟨-, heq⟩⟩ <;> rw [heq] <;> rfl

variable (lib) in
theorem calls_next (s : State) (e : Event) : s.calls.length ≤ (s.next lib e).calls.length := by
  cases e with
  | request method params =>
    rw [State.next, calls_request, List.length_append]
    omega
  | processResponse text =>
    rw [State.next]
    rcases s.processResponse_cases lib text with ⟨a, -, heq⟩ | ⟨-, heq⟩ <;> rw [heq]
    exact le_refl _
  | ret =>
    simp only [State.next, State.ret]
    split <;> exact le_refl _
  | raise e =>
    simp only [State.next, State.raise]
    split <;> exact le_refl _
  | destroy => exact le_refl _

theorem pending_emplace {call id c : ℕ} (h : (s.emplace call).pending id = some c) :
    c = call ∨ s.pending id = some c := by
  have hfind : (s.emplace call).pending id = if id = s.impl.lastId then
      (s.pending s.impl.lastId).or (some call) else s.pending id := OrderedMap.find?_emplace _ _ _ _
  rw [hfind] at h
  split_ifs at h with hid
  · cases hold : s.pending s.impl.lastId with
    | none =>
      rw [hold] at h
      exact .inl (Option.some.inj h).symm
    | some c' =>
      rw [hold] at h
      exact .inr (hid ▸ hold.trans h)
  · exact .inr h

theorem send_notMem_cons {f : Frame} {stack : List Frame} (hf : ∀ id, f ≠ .send c id)
    (h : ∀ id, Frame.send c id ∉ stack) : ∀ id, Frame.send c id ∉ f :: stack := by
  intro id hmem
  rcases List.mem_cons.mp hmem with hnew | hold
  · exact hf id hnew.symm
  · exact h id hold

theorem send_notMem_of_cons {f : Frame} {stack : List Frame}
    (h : ∀ id, Frame.send c id ∉ f :: stack) : ∀ id, Frame.send c id ∉ stack :=
  fun id hmem => h id (List.mem_cons_of_mem _ hmem)

theorem unreachable_request (h : s.Unreachable c) (hne : s.calls.length ≠ c) (method : Bytes)
    (params : Text) : (s.request lib method params).Unreachable c ∧
      (s.request lib method params).count c = s.count c := by
  have hemplace : ∀ id, ((s.begin method params).emplace s.calls.length).pending id ≠ some c := by
    intro id hid
    rcases pending_emplace (s := s.begin method params) hid with rfl | hold
    · exact hne rfl
    · exact h.pending id hold
  rcases s.request_cases lib method params with
    ⟨what, -, heq⟩ | ⟨e, -, -, heq⟩ | ⟨ps, -, ⟨-, heq⟩ | ⟨-, heq⟩⟩ <;> rw [heq]
  · refine ⟨⟨h.pending, send_notMem_cons nofun h.stack⟩, ?_⟩
    rw [count_invokeInvalidParams, if_neg hne]
    rfl
  · exact ⟨⟨h.pending, h.stack⟩, rfl⟩
  · exact ⟨⟨hemplace, h.stack⟩, rfl⟩
  · refine ⟨⟨hemplace, send_notMem_cons (fun id heq => ?_) h.stack⟩, rfl⟩
    exact hne (Frame.send.inj heq).1

theorem unreachable_processResponse (h : s.Unreachable c) (text : Text) :
    (s.processResponse lib text).Unreachable c ∧
      (s.processResponse lib text).count c = s.count c := by
  rcases s.processResponse_cases lib text with ⟨a, ha, heq⟩ | ⟨-, heq⟩ <;> rw [heq]
  · obtain ⟨object, -, -, hpending, -⟩ := Impl.accept_eq_some ha
    refine ⟨⟨h.pending, send_notMem_cons nofun h.stack⟩, ?_⟩
    rw [count_respond, if_neg]
    · rfl
    · rintro rfl
      exact h.pending a.id hpending
  · exact ⟨h, rfl⟩

theorem unreachable_ret (h : s.Unreachable c) (hne : s.stack ≠ []) :
    s.ret.Unreachable c ∧ s.ret.count c = s.count c := by
  obtain ⟨f, rest, hstack⟩ := List.exists_cons_of_ne_nil hne
  have hrest : ∀ id, Frame.send c id ∉ rest := send_notMem_of_cons (hstack ▸ h.stack)
  cases f with
  | send call id | invalidParams call sent =>
    simp only [State.ret, hstack]
    exact ⟨⟨h.pending, hrest⟩, rfl⟩
  | respond it =>
    simp only [State.ret, hstack]
    refine ⟨⟨fun id hid => ?_, fun id hmem => ?_⟩, rfl⟩
    · have hfind : (if id = it.id then none else s.pending id) = some c :=
        (OrderedMap.find?_erase _ _ _).symm.trans hid
      split_ifs at hfind
      exact h.pending id hfind
    · obtain ⟨f, hf, hinvalidate⟩ := List.mem_map.mp hmem
      cases f with
      | send call id' => exact hrest id' (by cases hinvalidate; exact hf)
      | _ => cases hinvalidate

theorem unreachable_raise (h : s.Unreachable c) (hne : s.stack ≠ []) (e : Exn) :
    (s.raise e).Unreachable c ∧ (s.raise e).count c = s.count c := by
  obtain ⟨f, rest, hstack⟩ := List.exists_cons_of_ne_nil hne
  have hrest : ∀ id, Frame.send c id ∉ rest := send_notMem_of_cons (hstack ▸ h.stack)
  cases f with
  | send call id =>
    have hcall : call ≠ c := by
      rintro rfl
      exact h.stack id (hstack ▸ List.mem_cons_self)
    cases e with
    | parseError what =>
      simp only [State.raise, hstack]
      refine ⟨⟨h.pending, send_notMem_cons (by simp) hrest⟩, ?_⟩
      rw [count_invokeInvalidParams, if_neg hcall]
      rfl
    | _ =>
      simp only [State.raise, hstack]
      exact ⟨⟨h.pending, hrest⟩, rfl⟩
  | respond it | invalidParams call sent =>
    simp only [State.raise, hstack]
    exact ⟨⟨h.pending, hrest⟩, rfl⟩

theorem unreachable_destroy (h : s.Unreachable c) :
    s.destroy.Unreachable c ∧ s.destroy.count c = s.count c := by
  refine ⟨⟨fun id => nofun, h.stack⟩, ?_⟩
  have hzero : s.impl.pendingRequests.values.count c = 0 := by
    refine List.count_eq_zero.mpr fun hmem => ?_
    obtain ⟨id, hid⟩ := mem_values.mp hmem
    exact h.pending id hid
  rw [count_destroy, hzero, Nat.add_zero]

variable (lib) in
/-- A step neither leads to the callback of a call again nor invokes it, unless it begins
the call. -/
theorem unreachable_next (h : s.Unreachable c) (he : s.Enabled e)
    (hc : ∀ method params, e = .request method params → s.calls.length ≠ c) :
    (s.next lib e).Unreachable c ∧ (s.next lib e).count c = s.count c := by
  cases e with
  | request method params => exact unreachable_request h (hc method params rfl) method params
  | processResponse text => exact unreachable_processResponse h text
  | ret => exact unreachable_ret h he.2
  | raise e => exact unreachable_raise h he.2 e
  | destroy => exact unreachable_destroy h

/-- The callback of a call that was made and cannot be reached is never invoked. -/
theorem unreachable_run {G : State → Event → Prop} {es : List Event} {u : State}
    (h : (machine lib).Path G s es u) (hc : c < s.calls.length) (hs : s.Unreachable c) :
    c < u.calls.length ∧ u.Unreachable c ∧ u.count c = s.count c := by
  refine h.invariant (I := fun v => c < v.calls.length ∧ v.Unreachable c ∧ v.count c = s.count c)
    ⟨hc, hs, rfl⟩ fun v e hv he _ => ?_
  obtain ⟨hlt, hunreachable, hcount⟩ := hv
  obtain ⟨hnext, hsame⟩ := unreachable_next lib hunreachable he fun _ _ _ => hlt.ne'
  exact ⟨hlt.trans_le (calls_next lib v e), hnext, hsame.trans hcount⟩

theorem fresh_run {es : List Event} (h : (machine lib).Run es s) (c : ℕ)
    (hc : s.calls.length ≤ c) : s.Unreachable c := by
  refine h.invariant (I := fun s => ∀ c, s.calls.length ≤ c → s.Unreachable c)
    (fun c _ => ⟨nofun, nofun⟩) (fun v e hv he _ c hc => ?_) c hc
  refine (unreachable_next lib (hv c ((calls_next lib v e).trans hc)) he fun method params heq => ?_).1
  subst heq
  replace hc : (v.request lib method params).calls.length ≤ c := hc
  rw [calls_request, List.length_append, List.length_singleton] at hc
  omega

end Steps

section Main

theorem lastId_emplace (impl : Impl) (call : ℕ) : (impl.emplace call).lastId ≠ impl.lastId := by
  intro h
  replace h : (impl.lastId + 1) % sizeCount = impl.lastId := h
  have hlt : impl.lastId < sizeCount := h ▸ Nat.mod_lt _ (by decide)
  rcases Nat.lt_or_ge (impl.lastId + 1) sizeCount with hlt' | hge
  · rw [Nat.mod_eq_of_lt hlt'] at h
    omega
  · have heq : impl.lastId + 1 = sizeCount := by omega
    rw [heq, Nat.mod_self] at h
    rw [← h] at heq
    exact absurd heq (by decide)

variable (s method) in
theorem request_of_error {e : Exn} (h : parseParams lib params = .error e) :
    (s.request lib method params).impl = s.impl ∧ ∀ {c : ℕ},
      s.Unreachable c → (s.request lib method params).Unreachable c := by
  rcases s.request_cases lib method params with
    ⟨what, -, heq⟩ | ⟨e, -, -, heq⟩ | ⟨ps, hps, -⟩
  · rw [heq]
    exact ⟨rfl, fun hc => ⟨hc.pending, send_notMem_cons nofun hc.stack⟩⟩
  · rw [heq]
    exact ⟨rfl, fun hc => ⟨hc.pending, hc.stack⟩⟩
  · cases h.symm.trans hps

variable (s method) in
/-- Parameters that parse: the entry is recorded before anything can be thrown. -/
theorem request_of_ok {ps : Option Json} (h : parseParams lib params = .ok ps) :
    (s.request lib method params).impl = s.impl.emplace s.calls.length ∧
      ((s.request lib method params).stack = s.stack ∨ ∃ c id,
        (s.request lib method params).stack = .send c id :: s.stack) := by
  rcases s.request_cases lib method params with
    ⟨what, herror, -⟩ | ⟨e, herror, -, -⟩ | ⟨ps', -, ⟨-, heq⟩ | ⟨-, heq⟩⟩
  · cases h.symm.trans herror
  · cases h.symm.trans herror
  · rw [heq]
    exact ⟨rfl, .inl rfl⟩
  · rw [heq]
    exact ⟨rfl, .inr ⟨_, _, rfl⟩⟩

theorem impl_raise (s : State) (e : Exn) : (s.raise e).impl = s.impl := by
  unfold State.raise
  split <;> rfl

/-- A request that fails is undone if and only if its parameters do not parse: then it fails
before it is recorded. -/
theorem failsAtomically_iff {es : List Event} (h : (machine lib).Run es s)
    (halive : s.isDestroyed = false) (method : Bytes) (params : Text) :
    s.FailsAtomically lib method params ↔ ∃ e, parseParams lib params = .error e := by
  constructor
  · intro hfails
    cases hparams : parseParams lib params with
    | error e => exact ⟨e, rfl⟩
    | ok ps =>
      obtain ⟨himpl, hstack⟩ := request_of_ok s method hparams
      have hchanged : (s.request lib method params).impl ≠ s.impl := by
        rw [himpl]
        exact fun heq => lastId_emplace s.impl s.calls.length (congrArg Impl.lastId heq)
      rcases hstack with hsame | ⟨c, id, hsend⟩
      · exact absurd ((hfails _ _ _ (.atOnce hsame)).1 rfl) hchanged
      · -- the communicator may throw right away
        have hraise : ((s.request lib method params).raise .typeError).stack = s.stack := by
          simp only [State.raise, hsend]
        have hexit : Exits lib s method params _ _ _ :=
          .thrown (e := .typeError) (by rw [hsend, List.length_cons]) .nil
            ⟨(alive_request s method params).trans halive, by simp [hsend]⟩
            (congrArg List.length hraise)
        have hundone := (hfails _ _ _ hexit).1 rfl
        rw [impl_raise] at hundone
        exact absurd hundone hchanged
  · rintro ⟨e, hparams⟩ t t' u hexit
    have hfresh := fresh_run h s.calls.length (le_refl _)
    obtain ⟨himpl, hkeep⟩ := request_of_error s method hparams
    have hlt : s.calls.length < (s.request lib method params).calls.length := by
      rw [calls_request, List.length_append, List.length_singleton]
      exact Nat.lt_succ_self _
    cases hexit with
    | atOnce uncalled =>
      exact ⟨fun _ => himpl, fun es' v hv => (unreachable_run hv hlt (hkeep hfresh)).2.2⟩
    | thrown calls called throws uncaught =>
      obtain ⟨hlt', hunreachable, -⟩ := unreachable_run called hlt (hkeep hfresh)
      refine ⟨fun hsame => ?_, fun es'' v hv => ?_⟩
      · rw [impl_raise, hsame, himpl]
      · have hnext := unreachable_next lib hunreachable throws (by simp)
        exact (unreachable_run hv (hlt'.trans_le (calls_next lib t' (.raise _))) hnext.1).2.2

/-- Parameters that do not parse, while request 0 is pending. -/
theorem unparsed_failsAtomically : ∃ s, (machine (.ofTable [])).Run
    [.request (ascii "substract") (.bytes []), .ret] s ∧ s.pending 0 = some 0 ∧
      s.FailsAtomically (.ofTable []) (ascii "add") (.bytes (ascii "@#!4784")) := by
  have hrun := Machine.Path.of_isSome (M := machine (.ofTable [])) (G := fun _ _ => True)
    (machine (.ofTable [])).init [.request (ascii "substract") (.bytes []), .ret]
    (by decide +kernel)
  exact ⟨_, hrun, by decide +kernel,
    (failsAtomically_iff hrun (by decide +kernel) _ _).mpr ⟨_, rfl⟩⟩

/-- The communicator throws: the callback is still told of the destruction. -/
theorem sendThrows_invoked : ¬ ({} : State).FailsAtomically (.ofTable []) (ascii "add") (.bytes []) := by
  intro h
  have hexit : Exits (.ofTable []) {} (ascii "add") (.bytes []) _ _ _ :=
    .thrown (e := .invalidArgument) (by decide +kernel) .nil (by decide +kernel) (by decide +kernel)
  have hdestroy := (h _ _ _ hexit).2 [.destroy] _ (.single (by decide +kernel) trivial)
  exact absurd hdestroy (by decide +kernel)

end Main
end Rockets.JsonRpc.Requester
