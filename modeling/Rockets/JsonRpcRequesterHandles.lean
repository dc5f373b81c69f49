import Rockets.JsonRpcRequesterCallbacks

set_option autoImplicit false

/-!
# Handles of requests

The id that `request` returns, and the requests that a cancel names.
-/
namespace Rockets.JsonRpc.Requester
variable {lib : JsonLib} {s : State} {e : Event} {c id : ℕ}

section Cancel

/-- `_getCancelJson`. -/
def getCancelJson (id : ℕ) : Except Exn Text :=
  (Json.ofMembers [(ascii "id", .numberUnsigned id)]).dump

/-- Both overloads, without and with parameters. -/
def makeNotification (method : Bytes) (params : Option Json) : Json :=
  .ofMembers ([(ascii "jsonrpc", .string (ascii "2.0")), (ascii "method", .string method)] ++
    (params.map fun p => (ascii "params", p)).toList)

/-- The notification that `notify` sends. -/
def notify (lib : JsonLib) (method : Bytes) (params : Text) : Except Exn Json := do
  let params ← parseParams lib params
  return makeNotification method params

/-- What `ClientRequest::cancel` sends for a handle. -/
def cancel (lib : JsonLib) (handle : ℕ) : Except Exn Json := do
  let params ← getCancelJson handle
  notify lib (ascii "cancel") params

/-- The request that a cancel notification names. -/
def cancelledId (notification : Json) : Json := (notification.at' (ascii "params")).at' (ascii "id")

theorem cancel_eq (handle : ℕ) : cancel lib handle = .ok (makeNotification (ascii "cancel")
    (some (.object [(ascii "id", .numberUnsigned handle)]))) := rfl

theorem cancelledId_cancel (handle : ℕ) : cancelledId (makeNotification (ascii "cancel")
    (some (.object [(ascii "id", .numberUnsigned handle)]))) = .numberUnsigned handle := rfl

end Cancel

/-- The counter does not wrap. When a call returns that has put an id on the wire, no other
call has taken an id since; when a call returns that has sent nothing, no id has been taken
and no other call has returned. -/
def Remembered (s : State) : Event → Prop
  | .request _ _ => s.impl.lastId + 1 < sizeCount
  | .ret => match s.stack with
    | .send _ id :: _ | .invalidParams _ (some id) :: _ => s.impl.lastId = id + 1
    | .invalidParams _ none :: _ => s.impl.lastId = 0 ∧ s.returned = []
    | _ => True
  | _ => True

def State.Unsent (s : State) (c : ℕ) : Prop := c < s.calls.length ∧ ∀ id, ¬ s.Sent c id

/-- What a call that is in progress has put on the wire. -/
def Frame.Fits (s : State) : Frame → Prop
  | send call id | invalidParams call (some id) => s.Sent call id
  | invalidParams call none => s.Unsent call
  | respond _ => True

structure Identified (s : State) : Prop where
  bounded : s.impl.lastId < sizeCount
  below : ∀ c id, s.Sent c id → id < s.impl.lastId
  injective : ∀ c c' id, s.Sent c id → s.Sent c' id → c = c'
  once : ∀ c id id', s.Sent c id → s.Sent c id' → id = id'
  sentCalled : ∀ c id, s.Sent c id → c < s.calls.length
  frames : ∀ f ∈ s.stack, f.Fits s
  returned : ∀ p ∈ s.returned, s.Sent p.1 p.2 ∨ p.2 = sizeCount - 1 ∧ s.Unsent p.1
  single : ∀ p ∈ s.returned, ∀ q ∈ s.returned, s.Unsent p.1 → s.Unsent q.1 → p.1 = q.1

section Steps

theorem Impl.handle_succ {impl : Impl} {id : ℕ} (h : impl.lastId = id + 1) (hid : id < sizeCount) :
    impl.handle = id := by
  unfold Impl.handle
  rw [h, show id + 1 + (sizeCount - 1) = id + sizeCount by unfold sizeCount; omega,
    Nat.add_mod_right, Nat.mod_eq_of_lt hid]

theorem Impl.handle_zero {impl : Impl} (h : impl.lastId = 0) : impl.handle = sizeCount - 1 := by
  unfold Impl.handle
  rw [h, Nat.zero_add]
  rfl

/-- What a step other than a return may change: a request may be begun, and put the id from
the counter on the wire. -/
structure Extends (s s' : State) : Prop where
  calls : s.calls.length ≤ s'.calls.length
  lastId : s.impl.lastId ≤ s'.impl.lastId
  bounded : s'.impl.lastId < sizeCount
  kept : ∀ c id, s.Sent c id → s'.Sent c id
  sent : ∀ c id, s'.Sent c id → s.Sent c id ∨ c = s.calls.length ∧ id = s.impl.lastId ∧
    s.calls.length < s'.calls.length ∧ s.impl.lastId < s'.impl.lastId
  returned : s'.returned = s.returned

variable {s' : State}

theorem Extends.unsent (hs : Extends s s') (h : s.Unsent c) : s'.Unsent c := by
  refine ⟨lt_of_lt_of_le h.1 hs.calls, fun id hsent => ?_⟩
  rcases hs.sent c id hsent with hold | ⟨rfl, -⟩
  · exact h.2 id hold
  · exact lt_irrefl _ h.1

theorem Extends.fits (hs : Extends s s') {f : Frame} (h : f.Fits s) : f.Fits s' := by
  cases f with
  | send call id => exact hs.kept call id h
  | invalidParams call sent =>
    cases sent with
    | none => exact hs.unsent h
    | some id => exact hs.kept call id h
  | respond it => trivial

namespace Identified
variable (h : Identified s)
include h

theorem extend (hs : Extends s s') (hstack : ∀ f ∈ s'.stack, f ∈ s.stack ∨ f.Fits s') :
    Identified s' := by
  have hold {p : ℕ × ℕ} (hp : p ∈ s'.returned) (hunsent : s'.Unsent p.1) : s.Unsent p.1 := by
    rcases h.returned p (hs.returned ▸ hp) with hsent | ⟨-, hunsent'⟩
    · exact absurd (hs.kept _ _ hsent) (hunsent.2 _)
    · exact hunsent'
  exact {
    bounded := hs.bounded
    below := fun c id hsent => by
      rcases hs.sent c id hsent with hsent | ⟨-, rfl, -, hlt⟩
      · exact lt_of_lt_of_le (h.below c id hsent) hs.lastId
      · exact hlt
    injective := fun c c' id hsent hsent' => by
      rcases hs.sent c id hsent with hsent | ⟨rfl, rfl, -⟩
      · rcases hs.sent c' id hsent' with hsent' | ⟨-, rfl, -⟩
        · exact h.injective c c' id hsent hsent'
        · exact absurd (h.below c _ hsent) (lt_irrefl _)
      · rcases hs.sent c' _ hsent' with hsent' | ⟨rfl, -⟩
        · exact absurd (h.below c' _ hsent') (lt_irrefl _)
        · rfl
    once := fun c id id' hsent hsent' => by
      rcases hs.sent c id hsent with hsent | ⟨rfl, rfl, -⟩
      · rcases hs.sent c id' hsent' with hsent' | ⟨rfl, -⟩
        · exact h.once c id id' hsent hsent'
        · exact absurd (h.sentCalled _ id hsent) (lt_irrefl _)
      · rcases hs.sent _ id' hsent' with hsent' | ⟨-, rfl, -⟩
        · exact absurd (h.sentCalled _ id' hsent') (lt_irrefl _)
        · rfl
    sentCalled := fun c id hsent => by
      rcases hs.sent c id hsent with hsent | ⟨rfl, -, hlt, -⟩
      · exact lt_of_lt_of_le (h.sentCalled c id hsent) hs.calls
      · exact hlt
    frames := fun f hf => (hstack f hf).elim (fun hf => hs.fits (h.frames f hf)) id
    returned := fun p hp => by
      rcases h.returned p (hs.returned ▸ hp) with hsent | ⟨hlast, hunsent⟩
      · exact .inl (hs.kept _ _ hsent)
      · exact .inr ⟨hlast, hs.unsent hunsent⟩
    single := fun p hp q hq hpu hqu =>
      h.single p (hs.returned ▸ hp) q (hs.returned ▸ hq) (hold hp hpu) (hold hq hqu) }

theorem of_stack (hlast : s'.impl.lastId = s.impl.lastId) (hwire : s'.wire = s.wire)
    (hcalls : s'.calls = s.calls) (hreturned : s'.returned = s.returned)
    (hstack : ∀ f ∈ s'.stack, f ∈ s.stack ∨ f.Fits s') : Identified s' := by
  have hsent (c id : ℕ) : s'.Sent c id ↔ s.Sent c id := by
    unfold State.Sent
    rw [hwire]
  exact h.extend
    { calls := hcalls ▸ le_rfl
      lastId := hlast ▸ le_rfl
      bounded := hlast ▸ h.bounded
      kept := fun c id => (hsent c id).mpr
      sent := fun c id hs => .inl ((hsent c id).mp hs)
      returned := hreturned } hstack

theorem of_return {f : Frame} {stack : List Frame} {c : ℕ} (hstack : s.stack = f :: stack)
    (hhandle : s.Sent c s.impl.handle ∨
      s.impl.handle = sizeCount - 1 ∧ s.Unsent c ∧ s.returned = []) :
    Identified { s with stack := stack, returned := s.returned ++ [(c, s.impl.handle)] } where
  bounded := h.bounded
  below := h.below
  injective := h.injective
  once := h.once
  sentCalled := h.sentCalled
  frames f' hf := h.frames f' (hstack ▸ List.mem_cons_of_mem _ hf)
  returned p hp := by
    rcases List.mem_append.mp hp with hp | hp
    · exact h.returned p hp
    · rw [List.mem_singleton.mp hp]
      exact hhandle.imp id fun hunsent => ⟨hunsent.1, hunsent.2.1⟩
  single p hp q hq hpu hqu := by
    rcases hhandle with hsent | ⟨-, -, hnone⟩
    · have hold {x : ℕ × ℕ} (hx : x ∈ s.returned ++ [(c, s.impl.handle)]) (hxu : s.Unsent x.1) :
          x ∈ s.returned := by
        rcases List.mem_append.mp hx with hx | hx
        · exact hx
        · rw [List.mem_singleton.mp hx] at hxu
          exact absurd hsent (hxu.2 _)
      exact h.single p (hold hp hpu) q (hold hq hqu) hpu hqu
    · simp only [hnone, List.nil_append, List.mem_singleton] at hp hq
      rw [hp, hq]

end Identified
theorem identified_initial : Identified {} where
  bounded := by decide
  below := by rintro c id ⟨request, hmem, -⟩; cases hmem
  injective := by rintro c c' id ⟨request, hmem, -⟩; cases hmem
  once := by rintro c id id' ⟨request, hmem, -⟩; cases hmem
  sentCalled := by rintro c id ⟨request, hmem, -⟩; cases hmem
  frames := nofun
  returned := nofun
  single := nofun

theorem identified_request (h : Identified s) (method : Bytes) (params : Text)
    (hlast : s.impl.lastId + 1 < sizeCount) : Identified (s.request lib method params) := by
  have hlength : s.calls.length < (s.begin method params).calls.length := by simp [State.begin]
  have hnext : (s.impl.lastId + 1) % sizeCount = s.impl.lastId + 1 := Nat.mod_eq_of_lt hlast
  have hunsent (s' : State) (hcalls : s'.calls = (s.begin method params).calls)
      (hwire : s'.wire = s.wire) : s'.Unsent s.calls.length := by
    refine ⟨hcalls ▸ hlength, fun id hsent => ?_⟩
    rw [State.Sent, hwire] at hsent
    exact lt_irrefl _ (h.sentCalled _ id hsent)
  have hextends (s' : State) (hcalls : s'.calls = (s.begin method params).calls)
      (hlastId : s'.impl.lastId = s.impl.lastId ∨ s'.impl.lastId = s.impl.lastId + 1)
      (hwire : s'.wire = s.wire) (hreturned : s'.returned = s.returned) : Extends s s' := by
    have hsent (c id : ℕ) : s'.Sent c id ↔ s.Sent c id := by
      unfold State.Sent
      rw [hwire]
    refine ⟨hcalls ▸ hlength.le, by omega, by omega, fun c id => (hsent c id).mpr,
      fun c id hs => .inl ((hsent c id).mp hs), hreturned⟩
  rcases s.request_cases lib method params with
    ⟨what, -, heq⟩ | ⟨e, -, -, heq⟩ | ⟨ps, -, ⟨-, heq⟩ | ⟨-, heq⟩⟩ <;> rw [heq]
  · refine h.extend (hextends _ rfl (.inl rfl) rfl rfl) fun f hf => ?_
    rcases List.mem_cons.mp hf with rfl | hf
    · exact .inr (hunsent _ rfl rfl)
    · exact .inl hf
  · exact h.extend (hextends _ rfl (.inl rfl) rfl rfl) fun f hf => .inl hf
  · exact h.extend (hextends _ rfl (.inr hnext) rfl rfl) fun f hf => .inl hf
  · have hsent (c id : ℕ) : (((s.begin method params).emplace s.calls.length).send s.calls.length
        s.impl.lastId (makeRequest method s.impl.lastId ps)).Sent c id ↔
          s.Sent c id ∨ c = s.calls.length ∧ id = s.impl.lastId :=
      sent_of_append (s := s) rfl
    have hlastId : (((s.begin method params).emplace s.calls.length).send s.calls.length
        s.impl.lastId (makeRequest method s.impl.lastId ps)).impl.lastId = s.impl.lastId + 1 := hnext
    refine h.extend ⟨hlength.le, by omega, by omega, fun c id hs => (hsent c id).mpr (.inl hs),
      fun c id hs => ?_, rfl⟩ fun f hf => ?_
    · rcases (hsent c id).mp hs with hs | ⟨hc, hid⟩
      · exact .inl hs
      · exact .inr ⟨hc, hid, hlength, by omega⟩
    · rcases List.mem_cons.mp hf with rfl | hf
      · exact .inr ((hsent _ _).mpr (.inr ⟨rfl, rfl⟩))
      · exact .inl hf

theorem identified_step (h : Identified s) (he : s.Enabled e) (hg : Remembered s e) :
    Identified (s.next lib e) := by
  cases e with
  | request method params => exact identified_request h method params hg
  | processResponse text =>
    rcases s.processResponse_cases lib text with ⟨a, -, heq⟩ | ⟨-, heq⟩
    · simp only [State.next, heq]
      refine h.of_stack rfl rfl rfl rfl fun f hf => ?_
      rcases List.mem_cons.mp hf with rfl | hf
      · exact .inr trivial
      · exact .inl hf
    · simpa only [State.next, heq] using h
  | ret =>
    cases hstack : s.stack with
    | nil => exact absurd hstack he.2
    | cons f stack =>
      have hfits := h.frames f (hstack ▸ List.mem_cons_self)
      cases f with
      | respond it =>
        simp only [State.next, State.ret, hstack]
        refine h.of_stack rfl rfl rfl rfl fun f hf => ?_
        obtain ⟨f', hf', rfl⟩ := List.mem_map.mp hf
        cases f' with
        | respond it' => exact .inr trivial
        | send | invalidParams => exact .inl (hstack ▸ List.mem_cons_of_mem _ hf')
      | send call id =>
        simp only [Remembered, hstack] at hg
        have hhandle := Impl.handle_succ hg ((h.below call id hfits).trans h.bounded)
        simp only [State.next, State.ret, hstack]
        exact h.of_return hstack (.inl (hhandle ▸ hfits))
      | invalidParams call sent =>
        cases sent with
        | some id =>
          simp only [Remembered, hstack] at hg
          have hhandle := Impl.handle_succ hg ((h.below call id hfits).trans h.bounded)
          simp only [State.next, State.ret, hstack]
          exact h.of_return hstack (.inl (hhandle ▸ hfits))
        | none =>
          simp only [Remembered, hstack] at hg
          simp only [State.next, State.ret, hstack]
          exact h.of_return hstack (.inr ⟨Impl.handle_zero hg.1, hfits, hg.2⟩)
  | raise e =>
    cases hstack : s.stack with
    | nil => exact absurd hstack he.2
    | cons f stack =>
      have hpop : Identified { s with stack := stack } :=
        h.of_stack rfl rfl rfl rfl fun f hf => .inl (hstack ▸ List.mem_cons_of_mem _ hf)
      have hfits := h.frames f (hstack ▸ List.mem_cons_self)
      cases f with
      | respond it | invalidParams call sent => simpa only [State.next, State.raise, hstack] using hpop
      | send call id =>
        cases e with
        | parseError what =>
          simp only [State.next, State.raise, hstack]
          refine h.of_stack rfl rfl rfl rfl fun f hf => ?_
          rcases List.mem_cons.mp hf with rfl | hf
          · exact .inr hfits
          · exact .inl (hstack ▸ List.mem_cons_of_mem _ hf)
        | _ => simpa only [State.next, State.raise, hstack] using hpop
  | destroy => exact h.of_stack rfl rfl rfl rfl fun f hf => .inl hf

end Steps

section Handles

/-- Under the guard the handle of a call is the id that it put on the wire, if any, and no
other call's; handles differ, and a cancel names no other call's request. -/
theorem handles_own {es : List Event} (h : (machine lib).Guarded Remembered es s) {c handle : ℕ}
    (hreturned : (c, handle) ∈ s.returned) :
    (∀ id, s.Sent c id → handle = id) ∧ (∀ c' id, c' ≠ c → s.Sent c' id → handle ≠ id) ∧
      (∀ c' handle', (c', handle') ∈ s.returned → c' ≠ c → handle' ≠ handle) ∧
      ∃ notification, cancel lib handle = .ok notification ∧
        ∀ c' id, c' ≠ c → s.Sent c' id → cancelledId notification ≠ .numberUnsigned id := by
  have hidentified : Identified s := h.invariant (I := Identified) identified_initial
    fun _ _ hI he hg => identified_step hI he hg
  have hother (c' id : ℕ) (hc : c' ≠ c) (hsent : s.Sent c' id) : handle ≠ id := by
    rintro rfl
    rcases hidentified.returned _ hreturned with hsent' | ⟨hlast, -⟩
    · exact hc (hidentified.injective c' c handle hsent hsent')
    · have hlt := hidentified.below c' handle hsent
      have hbounded := hidentified.bounded
      simp only at hlast
      omega
  refine ⟨fun id hsent => ?_, hother, fun c' handle' hreturned' hc => ?_, _, cancel_eq handle, ?_⟩
  · rcases hidentified.returned _ hreturned with hsent' | ⟨-, hunsent⟩
    · exact hidentified.once c handle id hsent' hsent
    · exact absurd hsent (hunsent.2 id)
  · rintro rfl
    rcases hidentified.returned _ hreturned' with hsent' | ⟨hlast, hunsent'⟩
    · exact hother c' handle' hc hsent' rfl
    · rcases hidentified.returned _ hreturned with hsent | ⟨-, hunsent⟩
      · have hlt := hidentified.below c handle' hsent
        have hbounded := hidentified.bounded
        simp only at hlast
        omega
      · exact hc (hidentified.single _ hreturned' _ hreturned hunsent' hunsent)
  · intro c' id hc hsent hid
    exact hother c' id hc hsent (Json.numberUnsigned.inj ((cancelledId_cancel handle).symm.trans hid))

instance (s : State) (e : Event) : Decidable (Remembered s e) :=
  match e with
  | .request _ _ => inferInstanceAs (Decidable (_ < _))
  | .ret => match h : s.stack with
    | .send _ id :: _ | .invalidParams _ (some id) :: _ =>
      decidable_of_iff (s.impl.lastId = id + 1) (by simp [Remembered, h])
    | .invalidParams _ none :: _ =>
      decidable_of_iff (s.impl.lastId = 0 ∧ s.returned = []) (by simp [Remembered, h])
    | .respond _ :: _ | [] => isTrue (by simp [Remembered, h])
  | .processResponse _ | .raise _ | .destroy => isTrue trivial

/-- A call with malformed parameters before two others, the response to the first of these
delivered from inside `_send`. -/
def invalidCallFirst : List Event :=
  [.request (ascii "substract") (.bytes (ascii "@#!4784")), .ret,
    .request (ascii "substract") (.bytes []), .processResponse (responseTo 0), .ret, .ret,
    .request (ascii "substract") (.bytes []), .ret]

theorem invalidCallFirst_handles : ∃ s, (machine (.ofTable [])).Guarded Remembered
    invalidCallFirst s ∧ s.returned = [(0, sizeCount - 1), (1, 0), (2, 1)] ∧
      ∀ c' handle', (c', handle') ∈ s.returned → c' ≠ 2 → handle' ≠ 1 := by
  have hrun := Machine.Path.of_isSome (M := machine (.ofTable [])) (G := Remembered)
    (machine (.ofTable [])).init invalidCallFirst (by decide +kernel)
  exact ⟨_, hrun, by decide +kernel, (handles_own hrun (by decide +kernel)).2.2.1⟩

/-- A call with malformed parameters after a request: both return the same handle. -/
def invalidCallSecond : List Event :=
  [.request (ascii "substract") (.bytes []), .ret,
    .request (ascii "substract") (.bytes (ascii "@#!4784")), .ret]

theorem invalidCallSecond_same_handle : ¬ ∀ es s, (machine (.ofTable [])).Run es s →
    ∀ c c' handle handle', (c, handle) ∈ s.returned → (c', handle') ∈ s.returned → c' ≠ c →
      handle' ≠ handle := by
  intro hall
  have hrun := Machine.Path.of_isSome (M := machine (.ofTable [])) (G := fun _ _ => True)
    (machine (.ofTable [])).init invalidCallSecond (by decide +kernel)
  exact hall _ _ hrun 0 1 0 0 (by decide +kernel) (by decide +kernel) (by decide) rfl

end Handles
end Rockets.JsonRpc.Requester
