import Rockets.JsonRpcProperReplies

set_option autoImplicit false

/-!
# Bindings

The calls that bind actions to the methods of a receiver, and which action a request runs
after any sequence of them.
-/
namespace Rockets

section LastIndex
variable {β : Type*} {p : β → Bool} {b : β} {bs : List β} {i : ℕ}

/-- Where the last element with the property stands. -/
def lastIdx? (p : β → Bool) : List β → Option ℕ
  | [] => none
  | b :: bs => ((lastIdx? p bs).map (· + 1)).or (if p b then some 0 else none)

theorem lastIdx?_concat (p : β → Bool) (bs : List β) (b : β) :
    lastIdx? p (bs ++ [b]) = if p b then some bs.length else lastIdx? p bs := by
  induction bs with
  | nil => simp only [List.nil_append, lastIdx?, Option.map_none, Option.none_or, List.length_nil]
  | cons c bs ih =>
    simp only [List.cons_append, lastIdx?, ih, List.length_cons]
    split_ifs <;> simp

theorem lastIdx?_eq_none : lastIdx? p bs = none ↔ ∀ b ∈ bs, p b = false := by
  induction bs with
  | nil => simp [lastIdx?]
  | cons c bs ih => simp [lastIdx?, ih, and_comm]

theorem lastIdx?_eq_some : lastIdx? p bs = some i ↔
    (∃ b, bs[i]? = some b ∧ p b = true) ∧ ∀ j c, bs[j]? = some c → p c = true → j ≤ i := by
  induction bs using List.reverseRecOn generalizing i with
  | nil => simp [lastIdx?]
  | append_singleton bs b ih =>
    rw [lastIdx?_concat]
    have hlast : (bs ++ [b])[bs.length]? = some b := List.getElem?_concat_length
    have hbound {j : ℕ} {c : β} (hj : (bs ++ [b])[j]? = some c) : j ≤ bs.length := by
      have := (List.getElem?_eq_some_iff.mp hj).1
      rw [List.length_append, List.length_singleton] at this
      omega
    split_ifs with hb
    · constructor
      · intro h
        obtain rfl := Option.some.inj h
        exact ⟨⟨b, hlast, hb⟩, fun j c hj _ => hbound hj⟩
      · rintro ⟨⟨c, hc, -⟩, hmax⟩
        exact congrArg some (le_antisymm (hmax _ b hlast hb) (hbound hc))
    · rw [ih]
      have hold {j : ℕ} {c : β} (hc : p c = true) : (bs ++ [b])[j]? = some c ↔ bs[j]? = some c := by
        rcases lt_or_ge j bs.length with hj | hj
        · rw [List.getElem?_append_left hj]
        · constructor
          · intro h
            obtain rfl := le_antisymm hj (hbound h)
            rw [hlast] at h
            exact absurd (Option.some.inj h ▸ hc) hb
          · intro h
            have := (List.getElem?_eq_some_iff.mp h).1
            omega
      constructor
      · rintro ⟨⟨c, hc, hpc⟩, hmax⟩
        exact ⟨⟨c, (hold hpc).mpr hc, hpc⟩, fun j d hd hpd => hmax j d ((hold hpd).mp hd) hpd⟩
      · rintro ⟨⟨c, hc, hpc⟩, hmax⟩
        exact ⟨⟨c, (hold hpc).mp hc, hpc⟩, fun j d hd hpd => hmax j d ((hold hpd).mpr hd) hpd⟩

end LastIndex

namespace JsonRpc
variable {α τ β γ : Type}

section Calls
variable (α)

abbrev VoidCallback := α → α
abbrev NotifyCallback := Request → α → α

/-- What is passed to `bind`, `connect` and `bindAsync`. The templated overloads pass a
lambda to one of these. -/
inductive Action where
  | bind (action : ResponseCallback α)
  | connectVoid (action : VoidCallback α)
  | connectNotify (action : NotifyCallback α)
  | bindAsync (action : DelayedResponseCallback α)
  | bindCancellable (action : CancellableResponseCallback α)

structure Registration where
  method : Bytes
  action : Action α

end Calls

def connectResponse : Response := { result := .bytes (ascii "\"OK\"") }

def Receiver.connectVoid (recv : Receiver α) (method : Bytes) (action : VoidCallback α) :
    Except Exn (Receiver α) :=
  recv.bind method fun _ app => (connectResponse, action app)

def Receiver.connectNotify (recv : Receiver α) (method : Bytes) (action : NotifyCallback α) :
    Except Exn (Receiver α) :=
  recv.bind method fun request app => (connectResponse, action request app)

def Kind.rank : Kind → ℕ
  | .receiver => 0
  | .async => 1
  | .cancellable => 2

namespace Registration

/-- The class whose table the action is put into. -/
def level (r : Registration α) : Kind :=
  match r.action with
  | .bind _ | .connectVoid _ | .connectNotify _ => .receiver
  | .bindAsync _ => .async
  | .bindCancellable _ => .cancellable

def apply (r : Registration α) (recv : Receiver α) : Except Exn (Receiver α) :=
  match r.action with
  | .bind action => recv.bind r.method action
  | .connectVoid action => recv.connectVoid r.method action
  | .connectNotify action => recv.connectNotify r.method action
  | .bindAsync action => recv.bindAsync r.method action
  | .bindCancellable action => recv.bindCancellable r.method action

end Registration

def Receiver.bindAll (recv : Receiver α) (regs : List (Registration α)) :
    Except Exn (Receiver α) :=
  regs.foldlM (fun recv r => r.apply recv) recv

section Recorded

/-! The application keeps a record of the calls whose actions have been run. -/

abbrev Recorded (α : Type) := α × List ℕ

def record (i : ℕ) (f : α → β × α) : Recorded α → β × Recorded α := fun (app, ran) =>
  ((f app).1, (f app).2, ran ++ [i])

def CancelRequestCallback.recorded (cancelFunc : CancelRequestCallback α) :
    CancelRequestCallback (Recorded α) := fun (app, ran) =>
  ((cancelFunc app).1, (cancelFunc app).2, ran)

def Action.recorded (i : ℕ) : Action α → Action (Recorded α)
  | .bind action => .bind fun request => record i (action request)
  | .connectVoid action => .connectVoid fun (app, ran) => (action app, ran ++ [i])
  | .connectNotify action => .connectNotify fun request (app, ran) =>
    (action request app, ran ++ [i])
  | .bindAsync action => .bindAsync fun request => record i (action request)
  | .bindCancellable action => .bindCancellable fun request s =>
    let ((given, cancelFunc), s) := record i (action request) s
    ((given, cancelFunc.map CancelRequestCallback.recorded), s)

def Registration.recorded (i : ℕ) (r : Registration α) : Registration (Recorded α) where
  method := r.method
  action := r.action.recorded i

/-- The same calls, each with an action that records its place in the sequence. -/
def recordedCalls (regs : List (Registration α)) : List (Registration (Recorded α)) :=
  regs.mapIdx Registration.recorded

end Recorded

section Tables
variable {regs : List (Registration α)} {r : Registration α} {m : Bytes} {k : Kind}

/-- The last call that put an action for the method into the table of a class. -/
def lastCallAt (k : Kind) (m : Bytes) (regs : List (Registration α)) : Option ℕ :=
  lastIdx? (fun r => r.method = m ∧ r.level = k) regs

def Records (i : ℕ) (f : Request → Recorded α → β × Recorded α) : Prop :=
  ∀ request s, (f request s).2.2 = s.2 ++ [i]

/-- The tables hold the actions of the last calls at their level. -/
structure Follows (regs : List (Registration α)) (recv : Receiver (Recorded α)) : Prop where
  sync : ∀ m, Option.Rel Records (lastCallAt .receiver m regs) (recv.methods.find? m)
  async : ∀ m, Option.Rel Records (lastCallAt .async m regs) (recv.asyncMethods.find? m)
  cancellable : ∀ m,
    Option.Rel Records (lastCallAt .cancellable m regs) (recv.cancellableMethods.find? m)

theorem rel_set {table : OrderedMap Bytes (Request → Recorded α → β × Recorded α)}
    {f : Request → Recorded α → β × Recorded α} (hr : r.level = k) (hf : Records regs.length f)
    (h : ∀ m, Option.Rel Records (lastCallAt k m regs) (table.find? m)) (m : Bytes) :
    Option.Rel Records (lastCallAt k m (regs ++ [r])) ((table.set r.method f).find? m) := by
  rw [lastCallAt, lastIdx?_concat, OrderedMap.find?_set]
  by_cases hm : m = r.method
  · rw [if_pos hm, if_pos (by simp [hm, hr])]
    exact .some hf
  · rw [if_neg hm, if_neg (by simp [eq_comm, hm])]
    exact h m

theorem rel_keep {table : OrderedMap Bytes (Request → Recorded α → β × Recorded α)}
    (hr : r.level ≠ k) (h : ∀ m, Option.Rel Records (lastCallAt k m regs) (table.find? m))
    (m : Bytes) : Option.Rel Records (lastCallAt k m (regs ++ [r])) (table.find? m) := by
  rw [lastCallAt, lastIdx?_concat, if_neg (by simp [hr])]
  exact h m

theorem bind_ok {recv recv' : Receiver α} {action : ResponseCallback α}
    (h : recv.bind m action = .ok recv') : recv'.kind = recv.kind ∧
      recv'.methods = recv.methods.set m action ∧ recv'.asyncMethods = recv.asyncMethods ∧
      recv'.cancellableMethods = recv.cancellableMethods := by
  unfold Receiver.bind at h
  split at h
  · cases h
  · obtain rfl := Except.ok.inj h
    exact ⟨rfl, rfl, rfl, rfl⟩

theorem bindAsync_ok {recv recv' : Receiver α} {action : DelayedResponseCallback α}
    (h : recv.bindAsync m action = .ok recv') : recv'.kind = recv.kind ∧
      recv'.methods = recv.methods ∧ recv'.asyncMethods = recv.asyncMethods.set m action ∧
      recv'.cancellableMethods = recv.cancellableMethods := by
  unfold Receiver.bindAsync at h
  split at h
  · cases h
  · obtain rfl := Except.ok.inj h
    exact ⟨rfl, rfl, rfl, rfl⟩

theorem bindCancellable_ok {recv recv' : Receiver α} {action : CancellableResponseCallback α}
    (h : recv.bindCancellable m action = .ok recv') : recv'.kind = recv.kind ∧
      recv'.methods = recv.methods ∧ recv'.asyncMethods = recv.asyncMethods ∧
      recv'.cancellableMethods = recv.cancellableMethods.set m action := by
  unfold Receiver.bindCancellable at h
  split at h
  · cases h
  · obtain rfl := Except.ok.inj h
    exact ⟨rfl, rfl, rfl, rfl⟩

theorem Follows.bind {recv recv' : Receiver (Recorded α)} (h : Follows regs recv)
    (hr : r.level = .receiver) {action : ResponseCallback (Recorded α)}
    (haction : Records regs.length action) (hbind : recv.bind r.method action = .ok recv') :
    Follows (regs ++ [r]) recv' := by
  obtain ⟨-, hsync, hasync, hcancellable⟩ := bind_ok hbind
  constructor
  · rw [hsync]
    exact rel_set hr haction h.sync
  · rw [hasync]
    exact rel_keep (by simp [hr]) h.async
  · rw [hcancellable]
    exact rel_keep (by simp [hr]) h.cancellable

theorem Follows.apply {recv recv' : Receiver (Recorded α)} (h : Follows regs recv)
    (happly : (r.recorded regs.length).apply recv = .ok recv') : Follows (regs ++ [r]) recv' := by
  obtain ⟨method, action⟩ := r
  cases action with
  | bind action => exact h.bind rfl (fun request s => rfl) happly
  | connectVoid action => exact h.bind rfl (fun request s => rfl) happly
  | connectNotify action => exact h.bind rfl (fun request s => rfl) happly
  | bindAsync action =>
    obtain ⟨-, hsync, hasync, hcancellable⟩ := bindAsync_ok happly
    constructor
    · rw [hsync]
      exact rel_keep nofun h.sync
    · rw [hasync]
      exact rel_set (r := ⟨method, .bindAsync action⟩) rfl (fun request s => rfl) h.async
    · rw [hcancellable]
      exact rel_keep nofun h.cancellable
  | bindCancellable action =>
    obtain ⟨-, hsync, hasync, hcancellable⟩ := bindCancellable_ok happly
    constructor
    · rw [hsync]
      exact rel_keep nofun h.sync
    · rw [hasync]
      exact rel_keep nofun h.async
    · rw [hcancellable]
      exact rel_set (r := ⟨method, .bindCancellable action⟩) rfl (fun request s => rfl)
        h.cancellable

theorem apply_kind {recv recv' : Receiver α} (h : r.apply recv = .ok recv') :
    recv'.kind = recv.kind := by
  obtain ⟨method, action⟩ := r
  cases action with
  | bindAsync action => exact (bindAsync_ok h).1
  | bindCancellable action => exact (bindCancellable_ok h).1
  | _ => exact (bind_ok h).1

theorem bindAll_follows {kind : Kind} {recv : Receiver (Recorded α)}
    (h : (Receiver.new kind).bindAll (recordedCalls regs) = .ok recv) :
    Follows regs recv ∧ recv.kind = kind := by
  induction regs using List.reverseRecOn generalizing recv with
  | nil =>
    obtain rfl := Except.ok.inj h
    exact ⟨⟨fun _ => .none, fun _ => .none, fun _ => .none⟩, rfl⟩
  | append_singleton regs r ih =>
    rw [recordedCalls, List.mapIdx_concat, Receiver.bindAll, List.foldlM_append] at h
    cases hold : (Receiver.new kind).bindAll (recordedCalls regs) with
    | error e =>
      rw [Receiver.bindAll, recordedCalls] at hold
      rw [hold] at h
      cases h
    | ok old =>
      obtain ⟨hfollows, hkind⟩ := ih hold
      rw [Receiver.bindAll, recordedCalls] at hold
      rw [hold] at h
      simp only [List.foldlM_cons, List.foldlM_nil, bind_pure] at h
      have happly : (r.recorded regs.length).apply old = .ok recv := h
      exact ⟨hfollows.apply happly, (apply_kind happly).trans hkind⟩

end Tables

section Dispatch
variable {regs : List (Registration α)} {r : Registration α} {m : Bytes} {i : ℕ}

/-- The call whose action the tables lead to: the classes are searched from the most
derived one on. -/
def dispatchedCall (m : Bytes) (regs : List (Registration α)) : Option ℕ :=
  (lastCallAt .cancellable m regs).or
    ((lastCallAt .async m regs).or (lastCallAt .receiver m regs))

def lastCall (m : Bytes) (regs : List (Registration α)) : Option ℕ :=
  lastIdx? (fun r => r.method = m) regs

/-- No call bound the method for a more derived class than the last one did. -/
def LastIsHighest (m : Bytes) (regs : List (Registration α)) : Prop :=
  ∀ i ∈ lastCall m regs, ∀ last ∈ regs[i]?, ∀ r ∈ regs, r.method = m →
    r.level.rank ≤ last.level.rank

theorem lastCallAt_eq_none {k : Kind} : lastCallAt k m regs = none ↔
    ∀ r ∈ regs, r.method = m → r.level ≠ k := by
  simp [lastCallAt, lastIdx?_eq_none]

theorem lastCallAt_eq_some {k : Kind} : lastCallAt k m regs = some i ↔
    (∃ r, regs[i]? = some r ∧ r.method = m ∧ r.level = k) ∧
      ∀ j r, regs[j]? = some r → r.method = m → r.level = k → j ≤ i := by
  simp [lastCallAt, lastIdx?_eq_some]

theorem lastCall_eq_some : lastCall m regs = some i ↔
    (∃ r, regs[i]? = some r ∧ r.method = m) ∧
      ∀ j r, regs[j]? = some r → r.method = m → j ≤ i := by
  simp [lastCall, lastIdx?_eq_some]

theorem dispatchedCall_spec (h : dispatchedCall m regs = some i) : ∃ r, regs[i]? = some r ∧
    r.method = m ∧ ∀ j r', regs[j]? = some r' → r'.method = m →
      r'.level.rank < r.level.rank ∨ r'.level = r.level ∧ j ≤ i := by
  unfold dispatchedCall at h
  rcases Option.or_eq_some_iff.mp h with hc | ⟨hc, h⟩
  · obtain ⟨⟨r, hr, hm, hk⟩, hmax⟩ := lastCallAt_eq_some.mp hc
    refine ⟨r, hr, hm, fun j r' hj hm' => ?_⟩
    cases hk' : r'.level with
    | cancellable => exact .inr ⟨hk.symm, hmax j r' hj hm' hk'⟩
    | _ => exact .inl (by simp [hk, Kind.rank])
  · replace hc := lastCallAt_eq_none.mp hc
    rcases Option.or_eq_some_iff.mp h with ha | ⟨ha, h⟩
    · obtain ⟨⟨r, hr, hm, hk⟩, hmax⟩ := lastCallAt_eq_some.mp ha
      refine ⟨r, hr, hm, fun j r' hj hm' => ?_⟩
      cases hk' : r'.level with
      | cancellable => exact absurd hk' (hc r' (List.mem_of_getElem? hj) hm')
      | async => exact .inr ⟨hk.symm, hmax j r' hj hm' hk'⟩
      | receiver => exact .inl (by simp [hk, Kind.rank])
    · replace ha := lastCallAt_eq_none.mp ha
      obtain ⟨⟨r, hr, hm, hk⟩, hmax⟩ := lastCallAt_eq_some.mp h
      refine ⟨r, hr, hm, fun j r' hj hm' => ?_⟩
      cases hk' : r'.level with
      | cancellable => exact absurd hk' (hc r' (List.mem_of_getElem? hj) hm')
      | async => exact absurd hk' (ha r' (List.mem_of_getElem? hj) hm')
      | receiver => exact .inr ⟨hk.symm, hmax j r' hj hm' hk'⟩

/-- The tables lead to the last call exactly if no call before it is for a more derived
class. -/
theorem dispatched_last_iff {last : ℕ} (h : dispatchedCall m regs = some i)
    (hlast : lastCall m regs = some last) : i = last ↔ LastIsHighest m regs := by
  obtain ⟨r, hr, hm, hmax⟩ := dispatchedCall_spec h
  obtain ⟨⟨l, hl, hlm⟩, hle⟩ := lastCall_eq_some.mp hlast
  constructor
  · rintro rfl j hj l' hl' r' hr' hm'
    obtain rfl := Option.some.inj (hlast.symm.trans hj)
    obtain rfl := Option.some.inj (hr.symm.trans hl')
    obtain ⟨j, hj⟩ := List.mem_iff_getElem?.mp hr'
    rcases hmax j r' hj hm' with hlt | ⟨heq, -⟩
    · exact hlt.le
    · rw [heq]
  · intro hhighest
    have hrank := hhighest last hlast l hl r (List.mem_of_getElem? hr) hm
    rcases hmax last l hl hlm with hlt | ⟨-, hi⟩
    · omega
    · exact le_antisymm (hle i r hr hm) hi

end Dispatch

section Membership
variable {regs : List (Registration α)} {recv : Receiver (Recorded α)} {m : Bytes}

theorem eq_none_of_rel {κ δ : Type} {R : κ → δ → Prop} {a : Option κ} {b : Option δ}
    (h : Option.Rel R a b) (hb : b = none) : a = none := by
  subst hb
  cases h
  rfl

theorem eq_some_of_rel {κ δ : Type} {R : κ → δ → Prop} {a : Option κ} {b : Option δ} {f : δ}
    (h : Option.Rel R a b) (hb : b = some f) : ∃ i, a = some i ∧ R i f := by
  subst hb
  cases h with
  | some hr => exact ⟨_, rfl, hr⟩

theorem contains_iff_of_rel {k : Kind}
    {table : OrderedMap Bytes (Request → Recorded α → β × Recorded α)}
    (h : Option.Rel Records (lastCallAt k m regs) (table.find? m)) :
    table.contains m = true ↔ ∃ r ∈ regs, r.method = m ∧ r.level = k := by
  unfold OrderedMap.contains
  cases hf : table.find? m with
  | none =>
    have hlast := lastCallAt_eq_none.mp (eq_none_of_rel h hf)
    refine iff_of_false nofun ?_
    rintro ⟨r, hr, hm, hk⟩
    exact hlast r hr hm hk
  | some f =>
    obtain ⟨i, hi, -⟩ := eq_some_of_rel h hf
    obtain ⟨⟨r, hr, hm⟩, -⟩ := lastCallAt_eq_some.mp hi
    exact iff_of_true rfl ⟨r, List.mem_of_getElem? hr, hm⟩

theorem registered_iff (h : Follows regs recv)
    (hoffered : ∀ r ∈ regs, r.level.rank ≤ recv.kind.rank) (m : Bytes) :
    recv.isRegisteredMethodName m = true ↔
      (∃ r ∈ regs, r.method = m) ∨ recv.kind = .cancellable ∧ m = cancelMethodName := by
  have hsync := contains_iff_of_rel (h.sync m)
  have hasync := contains_iff_of_rel (h.async m)
  have hcancellable := contains_iff_of_rel (h.cancellable m)
  have hlevels : (∃ r ∈ regs, r.method = m) ↔ recv.cancellableMethods.contains m = true ∨
      recv.asyncMethods.contains m = true ∨ recv.methods.contains m = true := by
    rw [hsync, hasync, hcancellable]
    constructor
    · rintro ⟨r, hr, hm⟩
      cases hk : r.level with
      | cancellable => exact .inl ⟨r, hr, hm, hk⟩
      | async => exact .inr (.inl ⟨r, hr, hm, hk⟩)
      | receiver => exact .inr (.inr ⟨r, hr, hm, hk⟩)
    · rintro (⟨r, hr, hm, -⟩ | ⟨r, hr, hm, -⟩ | ⟨r, hr, hm, -⟩) <;> exact ⟨r, hr, hm⟩
  have hnone {k : Kind} (hk : recv.kind.rank < k.rank) :
      ¬ ∃ r ∈ regs, r.method = m ∧ r.level = k := by
    rintro ⟨r, hr, -, rfl⟩
    exact absurd (hoffered r hr) (not_le.mpr hk)
  rw [hlevels]
  unfold Receiver.isRegisteredMethodName
  cases hkind : recv.kind with
  | receiver =>
    rw [hasync, hcancellable]
    simp [hnone (k := .async) (by simp [hkind, Kind.rank]), hnone (k := .cancellable)
      (by simp [hkind, Kind.rank])]
  | async =>
    rw [hcancellable]
    simp [hnone (k := .cancellable) (by simp [hkind, Kind.rank])]
  | cancellable =>
    simp only [Bool.or_eq_true, beq_iff_eq, true_and]
    constructor
    · rintro (((hm | hm) | hm) | hm)
      · exact .inl (.inl hm)
      · exact .inr hm
      · exact .inl (.inr (.inl hm))
      · exact .inl (.inr (.inr hm))
    · rintro ((hm | hm | hm) | hm)
      · exact .inl (.inl (.inl hm))
      · exact .inl (.inr hm)
      · exact .inr hm
      · exact .inl (.inl (.inr hm))

end Membership

section Keeps
variable {x : Effect α τ β} {f : β → Effect α τ γ} {lib : JsonLib} {id : Json}
  {respond : JsonResponseCallback τ}

/-- The receiver when a computation ends, by an exception or not. -/
def stateOf (r : EStateM.Result Stop (World α τ) β) : World α τ :=
  match r with
  | .ok _ w | .error _ w => w

/-- No action is run. -/
def Keeps (x : Effect α τ β) : Prop := ∀ w, (stateOf (x.run w)).app = w.app

theorem app_bind (w : World α τ) (hf : ∀ b, Keeps (f b)) :
    (stateOf ((x >>= f).run w)).app = (stateOf (x.run w)).app := by
  cases hx : x.run w with
  | ok b v =>
    rw [bind_of_ok hx]
    exact hf b v
  | error e v =>
    rw [bind_of_error hx]
    rfl

theorem Keeps.bind (hx : Keeps x) (hf : ∀ b, Keeps (f b)) : Keeps (x >>= f) :=
  fun w => (app_bind w hf).trans (hx w)

theorem keeps_pure (b : β) : Keeps (pure b : Effect α τ β) := fun _ => rfl

theorem keeps_ofExcept (r : Except Exn β) : Keeps (ofExcept r : Effect α τ β) := by
  cases r <;> exact fun _ => rfl

theorem keeps_modifyRequests (g : PendingRequests α → PendingRequests α) :
    Keeps (modifyRequests g : Effect α τ Unit) := fun _ => rfl

theorem keeps_send (j : Json) : Keeps (send respond j : Effect α τ Unit) :=
  Keeps.bind (x := get) (fun _ => rfl) fun w =>
    (keeps_ofExcept (respond j w.out)).bind fun _ _ => rfl

theorem keeps_reply (rep : Response) :
    Keeps (Receiver.reply lib id respond rep : Effect α τ Unit) := by
  unfold Receiver.reply
  split_ifs
  · exact keeps_send .null
  · exact (keeps_ofExcept _).bind keeps_send

theorem keeps_complete (rep : Response) :
    Keeps (Receiver.complete lib id respond rep : Effect α τ Unit) := by
  have hskip : Keeps (Receiver.skipResponse lib id : Effect α τ Bool) := fun _ => rfl
  refine hskip.bind fun skipped => ?_
  cases skipped with
  | true => exact keeps_pure ()
  | false => exact keeps_reply rep

theorem keeps_answer {complete : Response → Effect α τ Unit} (h : ∀ rep, Keeps (complete rep))
    (given : Answer) : Keeps (Receiver.answer complete given) := by
  cases given with
  | now rep => exact (h rep).bind fun _ => keeps_pure none
  | later rep => exact keeps_pure _

end Keeps

section Process
variable {lib : JsonLib} {recv : Receiver α} {id : Json} {method : Bytes} {request : Request}
  {respond : JsonResponseCallback τ} {w : World α τ} {deed : Deed α}

/-- The action of the deed is run, however the request is answered. -/
theorem app_process (hm : recv.kind = .cancellable → method ≠ cancelMethodName)
    (h : recv.deed lib id method request w.app = some deed) :
    (stateOf ((recv.process lib id method request respond).run w)).app = deed.app := by
  cases dispatches_of_deed h with
  | sync action bound notAsync notCancellable =>
    rw [process_eq_sync hm notAsync notCancellable]
    simp only [Receiver.processSync, bound]
    exact app_bind w fun rep => (keeps_reply rep).bind fun _ => keeps_pure none
  | async func bound derived notCancellable =>
    rw [process_eq_async hm derived notCancellable]
    simp only [Receiver.processAsync, bound]
    exact app_bind w fun given => keeps_answer keeps_reply given
  | cancellable func bound derived =>
    simp only [Receiver.process, derived, Receiver.processCancellable, if_neg (hm derived), bound]
    rw [bind_of_ok (run_modifyRequests _ w)]
    refine app_bind _ fun given => (keeps_answer keeps_complete given.1).bind fun later => ?_
    exact (keeps_modifyRequests _).bind fun _ => keeps_pure later

end Process

section Requests
variable {regs : List (Registration α)} {recv : Receiver (Recorded α)} {lib : JsonLib}

/-- What the deed records is the call the tables lead to. -/
theorem ran_deed (h : Follows regs recv)
    (hoffered : ∀ r ∈ regs, r.level.rank ≤ recv.kind.rank) {id : Json} {method : Bytes}
    {request : Request} {s : Recorded α} {deed : Deed (Recorded α)}
    (hdeed : recv.deed lib id method request s = some deed) :
    ∃ i, dispatchedCall method regs = some i ∧ deed.app.2 = s.2 ++ [i] := by
  have hnone {k : Kind} (hk : recv.kind.rank < k.rank) : lastCallAt k method regs = none := by
    refine lastCallAt_eq_none.mpr fun r hr _ hrk => ?_
    subst hrk
    exact absurd (hoffered r hr) (not_le.mpr hk)
  have hcancellable (hno : recv.kind = .cancellable → recv.cancellableMethods.find? method = none) :
      lastCallAt .cancellable method regs = none := by
    by_cases hkind : recv.kind = .cancellable
    · exact eq_none_of_rel (h.cancellable method) (hno hkind)
    · refine hnone ?_
      cases hk : recv.kind <;> simp [hk, Kind.rank] at hkind ⊢
  have hasync (hno : recv.kind ≠ .receiver → recv.asyncMethods.find? method = none) :
      lastCallAt .async method regs = none := by
    by_cases hkind : recv.kind = .receiver
    · exact hnone (by simp [hkind, Kind.rank])
    · exact eq_none_of_rel (h.async method) (hno hkind)
  unfold dispatchedCall
  cases dispatches_of_deed hdeed with
  | sync action bound notAsync notCancellable =>
    obtain ⟨i, hi, hrec⟩ := eq_some_of_rel (h.sync method) bound
    rw [hcancellable notCancellable, hasync notAsync, Option.none_or, Option.none_or]
    exact ⟨i, hi, hrec request s⟩
  | async func bound derived notCancellable =>
    obtain ⟨i, hi, hrec⟩ := eq_some_of_rel (h.async method) bound
    rw [hcancellable notCancellable, Option.none_or, hi, Option.some_or]
    exact ⟨i, rfl, hrec request s⟩
  | cancellable func bound derived =>
    obtain ⟨i, hi, hrec⟩ := eq_some_of_rel (h.cancellable method) bound
    rw [hi, Option.some_or]
    exact ⟨i, rfl, hrec request s⟩

end Requests

section Empty
variable {recv : Receiver α} {lib : JsonLib} {respond : JsonResponseCallback τ} {w : World α τ}

theorem parseOrThrow_ne (t : Text) : lib.parseOrThrow t ≠ .error .badFunctionCall := by
  unfold JsonLib.parseOrThrow
  cases lib.parse t <;> simp

theorem makeErrorResponse_ne (error : Response.Error) (id : Json) :
    makeErrorResponse lib error id ≠ .error .badFunctionCall := by
  unfold makeErrorResponse
  split_ifs
  · exact nofun
  · cases hp : lib.parseOrThrow error.data with
    | ok data => exact nofun
    | error e =>
      intro h
      have he : e = .badFunctionCall := Except.error.inj h
      exact parseOrThrow_ne error.data (he ▸ hp)

theorem makeResponseText_ne (resultJson : Text) (id : Json) :
    makeResponseText lib resultJson id ≠ .error .badFunctionCall := by
  unfold makeResponseText
  intro h
  split at h
  · cases h
  · cases h
  · rename_i e _ he
    have he' : e = .badFunctionCall := Except.error.inj h
    exact parseOrThrow_ne resultJson (he' ▸ he)

theorem replyJson_ne (id : Json) (rep : Response) :
    replyJson lib id rep ≠ .error .badFunctionCall := by
  unfold replyJson makeResponse
  split_ifs
  · exact nofun
  · exact makeErrorResponse_ne rep.error id
  · exact makeResponseText_ne rep.result id

theorem commandReply_ne (clientID : ℕ) (request : Json) (app : α) :
    commandReply lib recv clientID request app ≠ .error .badFunctionCall := by
  cases hcall : asCall recv request with
  | none =>
    simp only [commandReply, hcall, refusal]
    split_ifs
    · simp
    · exact makeErrorResponse_ne _ _
  | some c =>
    cases hcancel : isCancelCall recv c with
    | true => simp [commandReply_of_cancel hcall hcancel]
    | false =>
      obtain ⟨deed, hdeed⟩ := deed_of_call lib clientID hcall hcancel app
      rw [commandReply_of_deed hcall hcancel hdeed]
      exact replyJson_ne c.id deed.given.response

theorem Ends.ne {x : Effect α τ β} {b : β} {r : Except Exn (World α τ)} (h : Ends x b w r)
    (hr : r ≠ .error .badFunctionCall) (v : World α τ) :
    x.run w ≠ .error (.threw .badFunctionCall) v := by
  intro hx
  cases r with
  | ok u => cases hx.symm.trans h
  | error e =>
    obtain ⟨u, hu, -⟩ := h
    cases hx.symm.trans hu
    exact hr rfl

theorem map_ne {δ : Type} {r : Except Exn δ} (hr : r ≠ .error .badFunctionCall)
    (g : δ → World α τ) : r.map g ≠ .error .badFunctionCall := by
  cases r with
  | ok b => exact nofun
  | error e => exact fun h => hr (congrArg _ (Except.error.inj h))

/-- Only the responder of a pending request may be empty when it is invoked. -/
theorem cancels_of_badFunctionCall (hrespond : ∀ j out, respond j out ≠ .error .badFunctionCall)
    {request : Json} (hu : request.utf8 = true) {clientID : ℕ} {v : World α τ}
    (h : (RequestProcessor.processCommand lib recv request clientID respond).run w =
      .error (.threw .badFunctionCall) v) : cancelsEmptyResponder lib recv request w = true := by
  by_cases hhandled : Handled lib recv request w
  · obtain ⟨later, hrun⟩ := processCommand_concludes clientID respond hu hhandled
    cases later with
    | true =>
      obtain ⟨completion, u, hu, -⟩ := hrun
      cases h.symm.trans hu
    | false =>
      refine absurd h (Ends.ne hrun (map_ne ?_ _) v)
      cases hreply : commandReply lib recv clientID request w.app with
      | ok j => exact hrespond j w.out
      | error e =>
        intro he
        have he' : e = .badFunctionCall := Except.error.inj he
        exact commandReply_ne clientID request w.app (he' ▸ hreply)
  · cases hversion : hasReadableVersion request with
    | false =>
      rw [processCommand_throws hversion] at h
      cases h
    | true => simpa [Handled, hversion] using hhandled

end Empty

section Served
variable (lib : JsonLib)

/-- The calls whose actions the request runs, in turn. -/
def Runs (recv : Receiver (Recorded α)) (request : Json) (clientID : ℕ)
    (respond : JsonResponseCallback τ) (w : World (Recorded α) τ) (ran : List ℕ) : Prop :=
  (stateOf ((RequestProcessor.processCommand lib recv request clientID respond).run w)).app.2 =
    w.app.2 ++ ran

variable {lib} {recv : Receiver (Recorded α)} {request : Json} {clientID : ℕ}
  {respond : JsonResponseCallback τ} {w : World (Recorded α) τ}

theorem runs_unique {ran ran' : List ℕ} (h : Runs lib recv request clientID respond w ran) :
    Runs lib recv request clientID respond w ran' ↔ ran = ran' := by
  unfold Runs at h ⊢
  rw [h, List.append_cancel_left_eq]

/-- A valid request for a bound method runs one action, the one the tables lead to. -/
theorem runs_dispatched {regs : List (Registration α)} (h : Follows regs recv)
    (hoffered : ∀ r ∈ regs, r.level.rank ≤ recv.kind.rank) {c : Call}
    (hcall : asCall recv request = some c)
    (hm : recv.kind = .cancellable → c.method ≠ cancelMethodName) :
    ∃ i, dispatchedCall c.method regs = some i ∧
      Runs lib recv request clientID respond w [i] := by
  obtain ⟨deed, hdeed⟩ := Option.isSome_iff_exists.mp (deed_isSome lib hm
    (asCall_registered hcall) c.id { message := c.params, clientID } w.app)
  obtain ⟨i, hi, hran⟩ := ran_deed h hoffered hdeed
  refine ⟨i, hi, ?_⟩
  rw [Runs, processCommand_of_asCall hcall, app_process hm hdeed]
  exact hran

theorem ne_cancel_of_bound {regs : List (Registration α)} (h : Follows regs recv)
    {r : Registration α} (hr : r ∈ regs) (hkind : recv.kind = .cancellable) :
    r.method ≠ cancelMethodName := by
  refine Receiver.ne_cancel_of_binds ?_ hkind
  have hbound {k : Kind} (hk : r.level = k) : ∃ r' ∈ regs, r'.method = r.method ∧ r'.level = k :=
    ⟨r, hr, rfl, hk⟩
  unfold Receiver.binds
  rw [hkind]
  cases hk : r.level with
  | receiver => simp [(contains_iff_of_rel (h.sync r.method)).mpr (hbound hk)]
  | async => simp [(contains_iff_of_rel (h.async r.method)).mpr (hbound hk)]
  | cancellable => simp [(contains_iff_of_rel (h.cancellable r.method)).mpr (hbound hk)]

variable (lib) in
/-- After any calls that succeeded, the bound methods are registered, a valid request for
one runs one action given for it, which is that of the last call exactly if no earlier call
was for a more derived class, and no empty action is invoked. -/
theorem bindings_served {kind : Kind} {regs : List (Registration α)}
    (hbind : (Receiver.new kind).bindAll (recordedCalls regs) = .ok recv)
    (hoffered : ∀ r ∈ regs, r.level.rank ≤ kind.rank) :
    (∀ m, recv.isRegisteredMethodName m = true ↔
      (∃ r ∈ regs, r.method = m) ∨ kind = .cancellable ∧ m = cancelMethodName) ∧
    (∀ request clientID (respond : JsonResponseCallback τ) w c, asCall recv request = some c →
      ∀ last ∈ lastCall c.method regs,
        (Runs lib recv request clientID respond w [last] ↔ LastIsHighest c.method regs) ∧
        ∃ i r, regs[i]? = some r ∧ r.method = c.method ∧
          Runs lib recv request clientID respond w [i]) ∧
    ∀ request clientID (respond : JsonResponseCallback τ) w v, request.utf8 = true →
      (∀ j out, respond j out ≠ .error .badFunctionCall) →
      (RequestProcessor.processCommand lib recv request clientID respond).run w =
        .error (.threw .badFunctionCall) v → cancelsEmptyResponder lib recv request w = true := by
  obtain ⟨hfollows, rfl⟩ := bindAll_follows hbind
  refine ⟨registered_iff hfollows hoffered, ?_, ?_⟩
  · intro request clientID respond w c hcall last hlast
    obtain ⟨⟨r, hr, hm⟩, -⟩ := lastCall_eq_some.mp hlast
    obtain ⟨i, hi, hruns⟩ : ∃ i, dispatchedCall c.method regs = some i ∧
        Runs lib recv request clientID respond w [i] :=
      runs_dispatched hfollows hoffered hcall fun hkind =>
        hm ▸ ne_cancel_of_bound hfollows (List.mem_of_getElem? hr) hkind
    obtain ⟨r', hr', hm', -⟩ := dispatchedCall_spec hi
    refine ⟨?_, i, r', hr', hm', hruns⟩
    rw [runs_unique hruns, List.cons.injEq, and_iff_left rfl]
    exact dispatched_last_iff hi hlast
  · intro request clientID respond w v hu hrespond hrun
    exact cancels_of_badFunctionCall hrespond hu hrun

end Served

section Samples

def pingSync : Registration Unit := ⟨ascii "ping", .bind fun _ app => (okResponse, app)⟩

def pingAsync : Registration Unit :=
  ⟨ascii "ping", .bindAsync fun _ app => (.now okResponse, app)⟩

/-- An asynchronous receiver after the calls, if they succeeded. -/
def asyncReceiver (regs : List (Registration Unit)) : Receiver (Recorded Unit) :=
  ((Receiver.new .async).bindAll (recordedCalls regs)).toOption.getD (.new .async)

def unrecorded : World (Recorded Unit) (List Text) :=
  { app := ((), []), requests := [], aborted := [], out := [] }

/-- A synchronous action bound after an asynchronous one is never run. -/
theorem bind_after_bindAsync_ignored :
    (Receiver.new .async).bindAll (recordedCalls [pingAsync, pingSync]) =
      .ok (asyncReceiver [pingAsync, pingSync]) ∧
    (∀ r ∈ [pingAsync, pingSync], r.level.rank ≤ Kind.async.rank) ∧
    asCall (asyncReceiver [pingAsync, pingSync]) pingRequest = some pingCall ∧
    lastCall pingCall.method [pingAsync, pingSync] = some 1 ∧
    ¬ Runs sampleRequests (asyncReceiver [pingAsync, pingSync]) pingRequest 1 stringifyCallback
      unrecorded [1] := by
  refine ⟨rfl, by decide, rfl, by decide +kernel, ?_⟩
  have hruns : Runs sampleRequests (asyncReceiver [pingAsync, pingSync]) pingRequest 1
    stringifyCallback unrecorded [0] := by
    unfold Runs
    decide +kernel
  rw [runs_unique hruns]
  decide

theorem bindAsync_after_bind_runs :
    Runs sampleRequests (asyncReceiver [pingSync, pingAsync]) pingRequest 1 stringifyCallback
      unrecorded [1] := by
  have hbind : (Receiver.new .async).bindAll (recordedCalls [pingSync, pingAsync]) =
    .ok (asyncReceiver [pingSync, pingAsync]) := rfl
  have hserved := (bindings_served sampleRequests hbind (by decide)).2.1 pingRequest 1
    stringifyCallback unrecorded pingCall rfl 1 (by decide +kernel)
  refine hserved.1.mpr fun i hi last hlast r hr _ => ?_
  obtain rfl : 1 = i := by
    have hlast : lastCall pingCall.method [pingSync, pingAsync] = some 1 := by decide +kernel
    exact Option.some.inj (hlast.symm.trans hi)
  obtain rfl : pingAsync = last := Option.some.inj hlast
  rcases List.mem_pair.mp hr with rfl | rfl <;> decide

end Samples
end JsonRpc
end Rockets
