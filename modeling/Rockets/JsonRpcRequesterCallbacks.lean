import Rockets.JsonRpcRequester
import Rockets.JsonRpcUtils

set_option autoImplicit false

/-!
# Callbacks of a requester

How often the callback of each request is invoked, and with which response.
-/
namespace Rockets.JsonRpc.Requester
variable {lib : JsonLib} {s : State} {e : Event} {c id : ℕ}

/-- The response given to a callback is the one for the id that its request put on the
wire, or tells that the parameters do not parse or that the requester was destroyed. -/
def State.Right (lib : JsonLib) (s : State) (i : Invocation) : Prop :=
  match i.cause with
  | .answered text => ∃ object id, lib.parseOrDiscard text = some object ∧
      object.at' (ascii "id") = .numberUnsigned id ∧ s.Sent i.call id ∧
      makeResponse object = .ok i.response
  | .invalidParams => i.response = Response.invalidParams ∧ ∃ method params what,
      s.calls[i.call]? = some (method, params) ∧ parseParams lib params = .error (.parseError what)
  | .destroyed => i.response = destructionError

/-- The counter does not come round to the id of a pending request; no response is accepted
for an id whose callback is running, no callback throws when given a response, and no parse
error leaves `_send`. -/
def Orderly (lib : JsonLib) (s : State) : Event → Prop
  | .request _ _ => s.pending s.impl.lastId = none
  | .processResponse text => match s.impl.accept lib text with
    | .ok (some a) => ∀ it ∈ s.iterators, it.id ≠ a.id
    | _ => True
  | .raise e => match s.stack, e with
    | .respond _ :: _, _ => False
    | .send _ _ :: _, .parseError _ => False
    | _, _ => True
  | _ => True

/-- A request that has been sent is pending until its callback has run. -/
structure Consistent (lib : JsonLib) (s : State) : Prop where
  called : ∀ i ∈ s.invocations, i.call < s.calls.length
  sentCalled : ∀ c id, s.Sent c id → c < s.calls.length
  sentOnce : ∀ c id id', s.Sent c id → s.Sent c id' → id = id'
  pendingCalled : ∀ id c, s.pending id = some c → c < s.calls.length
  pendingSent : ∀ id c id', s.pending id = some c → s.Sent c id' → id' = id
  pendingOnce : ∀ id id' c, s.pending id = some c → s.pending id' = some c → id = id'
  unanswered : ∀ id c, s.pending id = some c → s.count c = 0 ∨ ∃ it ∈ s.iterators, it.id = id
  outstanding : ∀ c id, s.Sent c id → s.count c = 0 → s.pending id = some c
  running : ∀ it ∈ s.iterators,
    s.pending it.id = some it.call ∧ it.isValid = true ∧ s.count it.call = 1
  apart : (s.iterators.map Iterator.id).Nodup
  once : ∀ c, s.count c ≤ 1
  right : ∀ i ∈ s.invocations,
    (∀ text, i.cause = .answered text → ∃ id, s.Sent i.call id) → s.Right lib i
  defined : s.isUndefined = false

section Facts

theorem count_of_append {s' : State} {i : Invocation}
    (h : s'.invocations = s.invocations ++ [i]) (c : ℕ) :
    s'.count c = s.count c + if i.call = c then 1 else 0 := by
  simp [State.count, h, List.countP_append, List.countP_cons]

theorem count_invokeInvalidParams (call : ℕ) (sent : Option ℕ) (stack : List Frame) (c : ℕ) :
    (s.invokeInvalidParams call sent stack).count c = s.count c + if call = c then 1 else 0 :=
  count_of_append (s := s) (i := ⟨call, Response.invalidParams, .invalidParams⟩) rfl c

theorem count_respond (text : Text) (a : Accepted) (c : ℕ) :
    (s.respond text a).count c = s.count c + if a.call = c then 1 else 0 :=
  count_of_append (s := s) (i := ⟨a.call, a.response, .answered text⟩) rfl c

theorem sent_of_append {s' : State} {c' id' : ℕ} {method : Bytes} {params : Option Json}
    (h : s'.wire = s.wire ++ [(c', makeRequest method id' params)]) :
    s'.Sent c id ↔ s.Sent c id ∨ c = c' ∧ id = id' := by
  unfold State.Sent
  rw [h]
  constructor
  · rintro ⟨request, hrequest, hid⟩
    rcases List.mem_append.mp hrequest with hold | hnew
    · exact .inl ⟨request, hold, hid⟩
    · cases List.mem_singleton.mp hnew
      rw [makeRequest_id] at hid
      exact .inr ⟨rfl, (Json.numberUnsigned.inj hid).symm⟩
  · rintro (⟨request, hrequest, hid⟩ | ⟨rfl, rfl⟩)
    · exact ⟨request, List.mem_append_left _ hrequest, hid⟩
    · exact ⟨_, List.mem_append_right _ (List.mem_singleton.mpr rfl), makeRequest_id _ _ _⟩

theorem right_mono {s' : State} {i : Invocation} (hcalls : s.calls <+: s'.calls)
    (hsent : ∀ c id, s.Sent c id → s'.Sent c id) (h : s.Right lib i) : s'.Right lib i := by
  unfold State.Right at h ⊢
  split at h
  · obtain ⟨object, id, hparse, hid, hwire, hrep⟩ := h
    exact ⟨object, id, hparse, hid, hsent _ _ hwire, hrep⟩
  · obtain ⟨hrep, method, params, what, hcall, hparams⟩ := h
    obtain ⟨calls, hcalls⟩ := hcalls
    refine ⟨hrep, method, params, what, ?_, hparams⟩
    rw [← hcalls]
    rwa [List.getElem?_append_left (List.getElem?_eq_some_iff.mp hcall).1]
  · exact h

theorem mem_values : c ∈ s.impl.pendingRequests.values ↔ ∃ id, s.pending id = some c := by
  simp only [State.pending, OrderedMap.values, OrderedMap.find?_eq_some, List.mem_map, Prod.exists,
    exists_eq_right]

theorem count_destroy (c : ℕ) :
    s.destroy.count c = s.count c + s.impl.pendingRequests.values.count c := by
  simp only [State.count, State.destroy, List.countP_append, List.countP_map, List.count]
  rfl

namespace Consistent
variable (h : Consistent lib s)
include h

theorem count_fresh : s.count s.calls.length = 0 := by
  refine List.countP_eq_zero.mpr fun i hi => ?_
  have := h.called i hi
  simp only [beq_iff_eq]
  omega

theorem sent_fresh (id : ℕ) : ¬ s.Sent s.calls.length id :=
  fun hsent => lt_irrefl _ (h.sentCalled _ id hsent)

theorem pending_fresh (id : ℕ) : s.pending id ≠ some s.calls.length :=
  fun hpending => lt_irrefl _ (h.pendingCalled id _ hpending)

/-- Calls and returns do not matter, as long as no callback is given a response. -/
theorem of_stack {stack : List Frame} (returned : List (ℕ × ℕ))
    (hstack : stack.filterMap Frame.iterator? = s.iterators) :
    Consistent lib { s with stack := stack, returned := returned } := by
  have hiterators : State.iterators { s with stack := stack, returned := returned } =
    s.iterators := hstack
  exact {
    called := h.called
    sentCalled := h.sentCalled
    sentOnce := h.sentOnce
    pendingCalled := h.pendingCalled
    pendingSent := h.pendingSent
    pendingOnce := h.pendingOnce
    unanswered := hiterators ▸ h.unanswered
    outstanding := h.outstanding
    running := hiterators ▸ h.running
    apart := hiterators ▸ h.apart
    once := h.once
    right := h.right
    defined := h.defined }

theorem of_begin (method : Bytes) (params : Text) : Consistent lib (s.begin method params) := by
  have hlt {c : ℕ} (hc : c < s.calls.length) : c < (s.begin method params).calls.length := by
    rw [State.begin, List.length_append]
    omega
  exact {
    called := fun i hi => hlt (h.called i hi)
    sentCalled := fun c id hc => hlt (h.sentCalled c id hc)
    sentOnce := h.sentOnce
    pendingCalled := fun id c hc => hlt (h.pendingCalled id c hc)
    pendingSent := h.pendingSent
    pendingOnce := h.pendingOnce
    unanswered := h.unanswered
    outstanding := h.outstanding
    running := h.running
    apart := h.apart
    once := h.once
    right := fun i hi hsent =>
      right_mono (List.prefix_append _ _) (fun _ _ hc => hc) (h.right i hi hsent)
    defined := h.defined }

theorem of_invalidParams {c : ℕ} (hc : c < s.calls.length) (hcount : s.count c = 0)
    (hpending : ∀ id, s.pending id ≠ some c) {method : Bytes} {params : Text} {what : Bytes}
    (hcall : s.calls[c]? = some (method, params))
    (hparams : parseParams lib params = .error (.parseError what)) :
    Consistent lib (s.invokeInvalidParams c none s.stack) := by
  have hcount' (c' : ℕ) := count_invokeInvalidParams (s := s) c none s.stack c'
  have hother {id c' : ℕ} (hc' : s.pending id = some c') : c ≠ c' := by
    rintro rfl
    exact hpending id hc'
  exact {
    called := fun i hi => by
      rcases List.mem_append.mp hi with hi | hi
      · exact h.called i hi
      · rw [List.mem_singleton.mp hi]
        exact hc
    sentCalled := h.sentCalled
    sentOnce := h.sentOnce
    pendingCalled := h.pendingCalled
    pendingSent := h.pendingSent
    pendingOnce := h.pendingOnce
    unanswered := fun id c' hc' => by
      rw [hcount', if_neg (hother hc')]
      exact h.unanswered id c' hc'
    outstanding := fun c' id hc' hzero => by
      rw [hcount'] at hzero
      exact h.outstanding c' id hc' (by omega)
    running := fun it hit => by
      obtain ⟨hit, hvalid, hone⟩ := h.running it hit
      rw [hcount', if_neg (hother hit)]
      exact ⟨hit, hvalid, hone⟩
    apart := h.apart
    once := fun c' => by
      rw [hcount']
      split_ifs with hcc
      · rw [← hcc, hcount]
      · exact h.once c'
    right := fun i hi hsent => by
      rcases List.mem_append.mp hi with hi | hi
      · exact h.right i hi hsent
      · rw [List.mem_singleton.mp hi]
        exact ⟨rfl, method, params, what, hcall, hparams⟩
    defined := h.defined }

theorem of_emplace {c : ℕ} (hc : c < s.calls.length) (hcount : s.count c = 0)
    (hsent : ∀ id, ¬ s.Sent c id) (hpending : ∀ id, s.pending id ≠ some c)
    (hfree : s.pending s.impl.lastId = none) :
    Consistent lib (s.emplace c) := by
  have hfind (id : ℕ) : (s.emplace c).pending id =
      if id = s.impl.lastId then some c else s.pending id := Impl.find?_emplace hfree c id
  have hkeep {id c' : ℕ} (hold : s.pending id = some c') :
      (s.emplace c).pending id = some c' := by
    rw [hfind, if_neg, hold]
    rintro rfl
    exact absurd (hfree.symm.trans hold) nofun
  have hcases {id c' : ℕ} (hnew : (s.emplace c).pending id = some c') :
      id = s.impl.lastId ∧ c' = c ∨ s.pending id = some c' := by
    rw [hfind] at hnew
    split_ifs at hnew with hid
    · exact .inl ⟨hid, (Option.some.inj hnew).symm⟩
    · exact .inr hnew
  exact {
    called := h.called
    sentCalled := h.sentCalled
    sentOnce := h.sentOnce
    pendingCalled := fun id c' hc' => by
      rcases hcases hc' with ⟨-, rfl⟩ | hold
      · exact hc
      · exact h.pendingCalled id c' hold
    pendingSent := fun id c' id' hc' hs => by
      rcases hcases hc' with ⟨-, rfl⟩ | hold
      · exact absurd hs (hsent id')
      · exact h.pendingSent id c' id' hold hs
    pendingOnce := fun id id' c' hid hid' => by
      rcases hcases hid with ⟨rfl, rfl⟩ | hold
      · rcases hcases hid' with ⟨rfl, -⟩ | hold'
        · rfl
        · exact absurd hold' (hpending id')
      · rcases hcases hid' with ⟨rfl, rfl⟩ | hold'
        · exact absurd hold (hpending id)
        · exact h.pendingOnce id id' c' hold hold'
    unanswered := fun id c' hc' => by
      rcases hcases hc' with ⟨-, rfl⟩ | hold
      · exact .inl hcount
      · exact h.unanswered id c' hold
    outstanding := fun c' id hs hzero => hkeep (h.outstanding c' id hs hzero)
    running := fun it hit =>
      ⟨hkeep (h.running it hit).1, (h.running it hit).2⟩
    apart := h.apart
    once := h.once
    right := h.right
    defined := h.defined }

theorem of_send {c id : ℕ} (hcount : s.count c = 0) (hsent : ∀ id, ¬ s.Sent c id)
    (hpending : s.pending id = some c) (method : Bytes) (params : Option Json) :
    Consistent lib (s.send c id (makeRequest method id params)) := by
  have hsent' (c' id' : ℕ) : (s.send c id (makeRequest method id params)).Sent c' id' ↔
      s.Sent c' id' ∨ c' = c ∧ id' = id :=
    sent_of_append (s := s) rfl
  exact {
    called := h.called
    sentCalled := fun c' id' hs => by
      rcases (hsent' c' id').mp hs with hs | ⟨rfl, -⟩
      · exact h.sentCalled c' id' hs
      · exact h.pendingCalled id c' hpending
    sentOnce := fun c' i j hi hj => by
      rcases (hsent' c' i).mp hi with hold | ⟨rfl, rfl⟩
      · rcases (hsent' c' j).mp hj with hold' | ⟨rfl, -⟩
        · exact h.sentOnce c' i j hold hold'
        · exact absurd hold (hsent i)
      · rcases (hsent' c' j).mp hj with hold' | ⟨-, rfl⟩
        · exact absurd hold' (hsent j)
        · rfl
    pendingCalled := h.pendingCalled
    pendingSent := fun i c' id' hc' hs => by
      rcases (hsent' c' id').mp hs with hs | ⟨rfl, rfl⟩
      · exact h.pendingSent i c' id' hc' hs
      · exact h.pendingOnce id' i c' hpending hc'
    pendingOnce := h.pendingOnce
    unanswered := h.unanswered
    outstanding := fun c' id' hs hzero => by
      rcases (hsent' c' id').mp hs with hs | ⟨rfl, rfl⟩
      · exact h.outstanding c' id' hs hzero
      · exact hpending
    running := h.running
    apart := h.apart
    once := h.once
    right := fun i hi hanswered => by
      have hother : i.call ≠ c := by
        rintro rfl
        have hmem := List.countP_eq_zero.mp hcount i hi
        simp at hmem
      refine right_mono (s := s) (List.prefix_refl _)
        (fun c' id' hs => (hsent' c' id').mpr (.inl hs)) (h.right i hi fun text ht => ?_)
      obtain ⟨id', hs⟩ := hanswered text ht
      rcases (hsent' _ id').mp hs with hs | ⟨hcc, -⟩
      · exact ⟨id', hs⟩
      · exact absurd hcc hother
    defined := h.defined }

theorem of_accept {text : Text} {a : Accepted} (ha : s.impl.accept lib text = .ok (some a))
    (hidle : ∀ it ∈ s.iterators, it.id ≠ a.id) :
    Consistent lib (s.respond text a) := by
  obtain ⟨object, hparse, hid, hpending, hrep⟩ := Impl.accept_eq_some ha
  replace hpending : s.pending a.id = some a.call := hpending
  have hcount : s.count a.call = 0 := by
    rcases h.unanswered a.id a.call hpending with hzero | ⟨it, hit, hita⟩
    · exact hzero
    · exact absurd hita (hidle it hit)
  have hcount' (c' : ℕ) := count_respond (s := s) text a c'
  have hiterators : (s.respond text a).iterators = { id := a.id, call := a.call } :: s.iterators :=
    rfl
  exact {
    called := fun i hi => by
      rcases List.mem_append.mp hi with hi | hi
      · exact h.called i hi
      · rw [List.mem_singleton.mp hi]
        exact h.pendingCalled _ _ hpending
    sentCalled := h.sentCalled
    sentOnce := h.sentOnce
    pendingCalled := h.pendingCalled
    pendingSent := h.pendingSent
    pendingOnce := h.pendingOnce
    unanswered := fun id c' hc' => by
      rw [hcount', hiterators]
      by_cases hcc : a.call = c'
      · subst hcc
        exact .inr ⟨_, List.mem_cons_self, h.pendingOnce a.id id a.call hpending hc'⟩
      · rw [if_neg hcc]
        rcases h.unanswered id c' hc' with hzero | ⟨it, hit, hitid⟩
        · exact .inl hzero
        · exact .inr ⟨it, List.mem_cons_of_mem _ hit, hitid⟩
    outstanding := fun c' id hc' hzero => by
      rw [hcount'] at hzero
      exact h.outstanding c' id hc' (by omega)
    running := fun it hit => by
      rw [hiterators] at hit
      rw [hcount']
      rcases List.mem_cons.mp hit with rfl | hit
      · exact ⟨hpending, rfl, by simp [hcount]⟩
      · obtain ⟨hit', hvalid, hone⟩ := h.running it hit
        have hcc : a.call ≠ it.call := by
          intro hcc
          exact absurd (hcc ▸ hcount) (by omega)
        rw [if_neg hcc]
        exact ⟨hit', hvalid, hone⟩
    apart := by
      rw [hiterators, List.map_cons, List.nodup_cons]
      refine ⟨fun hmem => ?_, h.apart⟩
      obtain ⟨it, hit, hita⟩ := List.mem_map.mp hmem
      exact hidle it hit hita
    once := fun c' => by
      rw [hcount']
      split_ifs with hcc
      · rw [← hcc, hcount]
      · exact h.once c'
    right := fun i hi hsent => by
      rcases List.mem_append.mp hi with hi | hi
      · exact h.right i hi hsent
      · rw [List.mem_singleton.mp hi] at hsent ⊢
        obtain ⟨id', hs⟩ := hsent text rfl
        have hid' : id' = a.id := h.pendingSent a.id a.call id' hpending hs
        exact ⟨object, a.id, hparse, hid, hid' ▸ hs, hrep⟩
    defined := h.defined }

theorem of_respond {it : Iterator} {stack : List Frame} (hstack : s.stack = .respond it :: stack) :
    Consistent lib (s.erase it stack) := by
  have hold : s.iterators = it :: stack.filterMap Frame.iterator? := by
    simp only [State.iterators, hstack, List.filterMap_cons, Frame.iterator?]
  have hnew : (s.erase it stack).iterators =
        (stack.filterMap Frame.iterator?).map (Iterator.invalidate it.id) :=
    State.iterators_map_invalidate stack it.id
  have hfind (id : ℕ) : (s.erase it stack).pending id =
        if id = it.id then none else s.pending id := OrderedMap.find?_erase _ _ _
  have hsome {id c : ℕ} (hc : (s.erase it stack).pending id = some c) :
        id ≠ it.id ∧ s.pending id = some c := by
    rw [hfind] at hc
    split_ifs at hc with hid
    exact ⟨hid, hc⟩
  obtain ⟨hpending, hvalid, hone⟩ := h.running it (hold ▸ List.mem_cons_self)
  have happart := h.apart
  rw [hold, List.map_cons, List.nodup_cons] at happart
  have hother {it' : Iterator} (hit : it' ∈ stack.filterMap Frame.iterator?) : it'.id ≠ it.id :=
    fun hid => happart.1 (hid ▸ List.mem_map_of_mem hit)
  exact {
    called := h.called
    sentCalled := h.sentCalled
    sentOnce := h.sentOnce
    pendingCalled := fun id c hc => h.pendingCalled id c (hsome hc).2
    pendingSent := fun id c id' hc hs => h.pendingSent id c id' (hsome hc).2 hs
    pendingOnce := fun id id' c hc hc' => h.pendingOnce id id' c (hsome hc).2 (hsome hc').2
    unanswered := fun id c hc => by
      obtain ⟨hid, hc⟩ := hsome hc
      rcases h.unanswered id c hc with hzero | ⟨it', hit, rfl⟩
      · exact .inl hzero
      · rw [hold] at hit
        rcases List.mem_cons.mp hit with rfl | hit
        · exact absurd rfl hid
        · rw [hnew]
          exact .inr ⟨_, List.mem_map_of_mem hit, rfl⟩
    outstanding := fun c id hs hzero => by
      have hc := h.outstanding c id hs hzero
      rw [hfind, if_neg, hc]
      rintro rfl
      have hcc : c = it.call := Option.some.inj (hc.symm.trans hpending)
      subst hcc
      exact absurd (hzero.symm.trans hone) (by omega)
    running := fun x hx => by
      rw [hnew] at hx
      obtain ⟨it', hit, rfl⟩ := List.mem_map.mp hx
      obtain ⟨hpending', hvalid', hone'⟩ := h.running it' (hold ▸ List.mem_cons_of_mem _ hit)
      refine ⟨?_, ?_, hone'⟩
      · rw [hfind]
        exact (if_neg (hother hit)).trans hpending'
      · simp [Iterator.invalidate, hvalid', hother hit]
    apart := by
      rw [hnew, List.map_map]
      exact happart.2
    once := h.once
    right := h.right
    defined := by
      show (s.isUndefined || !it.isValid) = false
      rw [h.defined, hvalid]
      rfl }

theorem nodup_values : s.impl.pendingRequests.values.Nodup := by
  refine List.Nodup.map_on ?_ (s.impl.pendingRequests.sorted.imp fun hlt => ?_)
  · intro x hx y hy hxy
    have hx' : s.pending x.1 = some x.2 := OrderedMap.find?_eq_some.mpr hx
    have hy' : s.pending y.1 = some x.2 := OrderedMap.find?_eq_some.mpr (hxy ▸ hy)
    exact Prod.ext (h.pendingOnce _ _ _ hx' hy') hxy
  · rintro rfl
    exact lt_irrefl _ hlt

theorem count_values (hidle : s.stack = []) (c : ℕ) :
    s.count c + s.impl.pendingRequests.values.count c ≤ 1 := by
  by_cases hc : c ∈ s.impl.pendingRequests.values
  · obtain ⟨id, hid⟩ := mem_values.mp hc
    have hzero : s.count c = 0 := by
      rcases h.unanswered id c hid with hzero | ⟨it, hit, -⟩
      · exact hzero
      · simp [State.iterators, hidle] at hit
    have hone := List.nodup_iff_count_le_one.mp h.nodup_values c
    omega
  · rw [List.count_eq_zero.mpr hc]
    exact h.once c

theorem of_destroy (hidle : s.stack = []) : Consistent lib s.destroy := by
  have hempty : s.destroy.iterators = [] := by simp [State.iterators, State.destroy, hidle]
  have hnone (id c : ℕ) : s.destroy.pending id ≠ some c := nofun
  exact {
    called := fun i hi => by
      rcases List.mem_append.mp hi with hi | hi
      · exact h.called i hi
      · obtain ⟨c, hc, rfl⟩ := List.mem_map.mp hi
        obtain ⟨id, hid⟩ := mem_values.mp hc
        exact h.pendingCalled id c hid
    sentCalled := h.sentCalled
    sentOnce := h.sentOnce
    pendingCalled := fun id c hc => absurd hc (hnone id c)
    pendingSent := fun id c _ hc => absurd hc (hnone id c)
    pendingOnce := fun id _ c hc => absurd hc (hnone id c)
    unanswered := fun id c hc => absurd hc (hnone id c)
    outstanding := fun c id hs hzero => by
      rw [count_destroy] at hzero
      have hc := mem_values.mpr ⟨id, h.outstanding c id hs (by omega)⟩
      have hpos := List.count_pos_iff.mpr hc
      omega
    running := by
      rw [hempty]
      exact nofun
    apart := by
      rw [hempty]
      exact List.nodup_nil
    once := fun c => count_destroy c ▸ h.count_values hidle c
    right := fun i hi hsent => by
      rcases List.mem_append.mp hi with hi | hi
      · exact h.right i hi hsent
      · obtain ⟨c, -, rfl⟩ := List.mem_map.mp hi
        exact rfl
    defined := h.defined }

end Consistent
end Facts

section Steps

theorem consistent_initial : Consistent lib {} where
  called := nofun
  sentCalled := by rintro c id ⟨request, hmem, -⟩; cases hmem
  sentOnce := by rintro c id id' ⟨request, hmem, -⟩; cases hmem
  pendingCalled := nofun
  pendingSent := nofun
  pendingOnce := nofun
  unanswered := nofun
  outstanding := by rintro c id ⟨request, hmem, -⟩; cases hmem
  running := nofun
  apart := List.nodup_nil
  once _ := Nat.zero_le 1
  right := nofun
  defined := rfl

theorem consistent_request (h : Consistent lib s) (method : Bytes) (params : Text)
    (hfree : s.pending s.impl.lastId = none) : Consistent lib (s.request lib method params) := by
  have hbegin := h.of_begin method params
  have hlt : s.calls.length < (s.begin method params).calls.length := by
    simp [State.begin]
  have hcall : (s.begin method params).calls[s.calls.length]? = some (method, params) := by
    simp [State.begin]
  rcases s.request_cases lib method params with
    ⟨what, hparams, heq⟩ | ⟨e, -, -, heq⟩ | ⟨ps, -, ⟨-, heq⟩ | ⟨-, heq⟩⟩ <;> rw [heq]
  · exact hbegin.of_invalidParams hlt h.count_fresh h.pending_fresh hcall hparams
  · exact hbegin
  · exact hbegin.of_emplace hlt h.count_fresh h.sent_fresh h.pending_fresh hfree
  · have hemplace := hbegin.of_emplace hlt h.count_fresh h.sent_fresh h.pending_fresh hfree
    refine hemplace.of_send h.count_fresh h.sent_fresh ?_ method ps
    exact (Impl.find?_emplace hfree _ _).trans (if_pos rfl)

theorem consistent_step (h : Consistent lib s) (he : s.Enabled e) (hg : Orderly lib s e) :
    Consistent lib (s.next lib e) := by
  cases e with
  | request method params => exact consistent_request h method params hg
  | processResponse text =>
    rcases s.processResponse_cases lib text with ⟨a, ha, heq⟩ | ⟨-, heq⟩
    · simp only [Orderly, ha] at hg
      simpa only [State.next, heq] using h.of_accept ha hg
    · simpa only [State.next, heq] using h
  | ret =>
    cases hstack : s.stack with
    | nil => exact absurd hstack he.2
    | cons f stack =>
      cases f with
      | respond it => simpa only [State.next, State.ret, hstack] using h.of_respond hstack
      | send call id | invalidParams call sent =>
        simp only [State.next, State.ret, hstack]
        exact h.of_stack _ (by rw [State.iterators, hstack]; rfl)
  | raise e =>
    cases hstack : s.stack with
    | nil => exact absurd hstack he.2
    | cons f stack =>
      simp only [Orderly, hstack] at hg
      have hpop (hf : f.iterator? = none) : Consistent lib { s with stack := stack } := by
        refine h.of_stack s.returned ?_
        rw [State.iterators, hstack, List.filterMap_cons, hf]
      cases f with
      | respond it => exact hg.elim
      | invalidParams call sent => simpa only [State.next, State.raise, hstack] using hpop rfl
      | send call id =>
        cases e with
        | parseError what => exact hg.elim
        | _ => simpa only [State.next, State.raise, hstack] using hpop rfl
  | destroy => exact h.of_destroy he.2

end Steps

section ExactlyOnce

theorem utf8_of_parseParams {params : Text} {ps : Option Json}
    (h : parseParams lib params = .ok ps) {p : Json} (hp : p ∈ ps) : p.utf8 = true := by
  unfold parseParams JsonLib.parseOrThrow at h
  split_ifs at h
  · cases Except.ok.inj h
    cases hp
  · split at h
    · rename_i j hj _
      cases Except.ok.inj h
      cases Option.some.inj hp
      exact hj
    · cases h
    · cases h

theorem utf8_makeRequest {method : Bytes} {params : Text} {ps : Option Json}
    (h : parseParams lib params = .ok ps) (id : ℕ) :
    (makeRequest method id ps).utf8 = utf8 method := by
  cases ps with
  | none =>
    have heq : makeRequest method id none = .object [(ascii "id", .numberUnsigned id),
      (ascii "jsonrpc", .string (ascii "2.0")), (ascii "method", .string method)] := rfl
    rw [heq]
    simp (disch := decide) only [Json.utf8, Json.utf8Members, utf8_ascii, Bool.and_true,
      Bool.true_and]
  | some p =>
    have hp := utf8_of_parseParams h rfl
    have heq : makeRequest method id (some p) = .object [(ascii "id", .numberUnsigned id),
      (ascii "jsonrpc", .string (ascii "2.0")), (ascii "method", .string method),
      (ascii "params", p)] := rfl
    rw [heq]
    simp (disch := decide) only [Json.utf8, Json.utf8Members, utf8_ascii, hp, Bool.and_true,
      Bool.true_and]

/-- Besides, methods are well-formed strings and parameters have no number that overflows. -/
def Regular (lib : JsonLib) (s : State) (e : Event) : Prop :=
  Orderly lib s e ∧ match e with
    | .request method params => match parseParams lib params with
      | .ok _ => utf8 method = true
      | .error (.parseError _) => True
      | .error _ => False
    | _ => True

/-- Every call is told Invalid params or puts its request on the wire. -/
structure Complete (s : State) : Prop where
  entries : ∀ id c, s.pending id = some c → s.Sent c id
  waiting : ∀ c < s.calls.length, s.count c = 0 → ∃ id, s.Sent c id
  solicited : ∀ i ∈ s.invocations, ∀ text, i.cause = .answered text → ∃ id, s.Sent i.call id
  destroyed : s.isDestroyed = true → ∀ id, s.pending id = none

theorem complete_initial : Complete {} where
  entries := nofun
  waiting := nofun
  solicited := nofun
  destroyed := nofun

theorem complete_request (h : Complete s) (halive : s.isDestroyed = false)
    {method : Bytes} {params : Text} (hg : Regular lib s (.request method params)) :
    Complete (s.request lib method params) := by
  obtain ⟨hfree, hregular⟩ := hg
  have hlast {c : ℕ} (hlt : c < (s.calls ++ [(method, params)]).length) :
      c < s.calls.length ∨ c = s.calls.length := by
    rw [List.length_append, List.length_singleton] at hlt
    omega
  rcases s.request_cases lib method params with
    ⟨what, -, heq⟩ | ⟨e, hparams, he, -⟩ | ⟨ps, hparams, ⟨hutf8, -⟩ | ⟨-, heq⟩⟩
  · rw [heq]
    have hcount (c : ℕ) : ((s.begin method params).invokeInvalidParams s.calls.length none
        s.stack).count c = s.count c + if s.calls.length = c then 1 else 0 :=
      count_invokeInvalidParams s.calls.length none s.stack c
    refine ⟨h.entries, fun c hlt hzero => ?_, fun i hi text ht => ?_, fun hd => ?_⟩
    · rw [hcount] at hzero
      rcases hlast hlt with hlt | rfl
      · exact h.waiting c hlt (by omega)
      · simp at hzero
    · rcases List.mem_append.mp hi with hi | hi
      · exact h.solicited i hi text ht
      · rw [List.mem_singleton.mp hi] at ht
        cases ht
    · exact absurd (halive.symm.trans hd) nofun
  · cases e with
    | parseError what => exact absurd rfl (he what)
    | _ =>
      simp only [hparams] at hregular
  · simp only [hparams] at hregular
    exact absurd ((utf8_makeRequest hparams _).symm.trans hutf8) (by simp [hregular])
  · rw [heq]
    have hsent (c id : ℕ) : (((s.begin method params).emplace s.calls.length).send s.calls.length
        s.impl.lastId (makeRequest method s.impl.lastId ps)).Sent c id ↔
          s.Sent c id ∨ c = s.calls.length ∧ id = s.impl.lastId :=
      sent_of_append (s := s) rfl
    refine ⟨fun id c hpending => ?_, fun c hlt hzero => ?_, fun i hi text ht => ?_, fun hd => ?_⟩
    · rw [hsent]
      have hfind := (Impl.find?_emplace hfree s.calls.length id).symm.trans hpending
      split_ifs at hfind with hid
      · exact .inr ⟨(Option.some.inj hfind).symm, hid⟩
      · exact .inl (h.entries id c hfind)
    · rcases hlast hlt with hlt | rfl
      · obtain ⟨id, hs⟩ := h.waiting c hlt hzero
        exact ⟨id, (hsent c id).mpr (.inl hs)⟩
      · exact ⟨_, (hsent _ _).mpr (.inr ⟨rfl, rfl⟩)⟩
    · obtain ⟨id, hs⟩ := h.solicited i hi text ht
      exact ⟨id, (hsent _ id).mpr (.inl hs)⟩
    · exact absurd (halive.symm.trans hd) nofun

/-- Steps that neither begin a call nor send anything. -/
theorem Complete.frame (h : Complete s) {s' : State} (is : List Invocation)
    (hpending : ∀ id c, s'.pending id = some c → s.pending id = some c)
    (hwire : s'.wire = s.wire) (hcalls : s'.calls = s.calls)
    (hinvocations : s'.invocations = s.invocations ++ is)
    (hsolicited : ∀ i ∈ is, ∀ text, i.cause = .answered text → ∃ id, s.Sent i.call id)
    (hdestroyed : s'.isDestroyed = true → ∀ id, s'.pending id = none) : Complete s' := by
  have hsent (c id : ℕ) : s'.Sent c id ↔ s.Sent c id := by
    unfold State.Sent
    rw [hwire]
  refine ⟨fun id c hs => ?_, fun c hlt hzero => ?_, fun i hi text ht => ?_, hdestroyed⟩
  · exact (hsent c id).mpr (h.entries id c (hpending id c hs))
  · have hzero' : s.count c = 0 := by
      rw [State.count, hinvocations, List.countP_append] at hzero
      exact (Nat.add_eq_zero_iff.mp hzero).1
    obtain ⟨id, hs⟩ := h.waiting c (hcalls ▸ hlt) hzero'
    exact ⟨id, (hsent c id).mpr hs⟩
  · rw [hinvocations] at hi
    obtain ⟨id, hs⟩ : ∃ id, s.Sent i.call id := by
      rcases List.mem_append.mp hi with hi | hi
      · exact h.solicited i hi text ht
      · exact hsolicited i hi text ht
    exact ⟨id, (hsent _ id).mpr hs⟩

theorem complete_step (h : Complete s) (he : s.Enabled e) (hg : Regular lib s e) :
    Complete (s.next lib e) := by
  have hpop (stack : List Frame) (returned : List (ℕ × ℕ)) :
      Complete { s with stack := stack, returned := returned } :=
    h.frame [] (fun _ _ hs => hs) rfl rfl (List.append_nil _).symm (by simp) h.destroyed
  cases e with
  | request method params => exact complete_request h he hg
  | processResponse text =>
    rcases s.processResponse_cases lib text with ⟨a, ha, heq⟩ | ⟨-, heq⟩
    · obtain ⟨object, -, -, hpending, -⟩ := Impl.accept_eq_some ha
      simp only [State.next, heq]
      refine h.frame _ (fun _ _ hs => hs) rfl rfl rfl (fun i hi text ht => ?_) h.destroyed
      rw [List.mem_singleton.mp hi]
      exact ⟨a.id, h.entries a.id a.call hpending⟩
    · simpa only [State.next, heq] using h
  | ret =>
    cases hstack : s.stack with
    | nil => exact absurd hstack he.2
    | cons f stack =>
      cases f with
      | send call id | invalidParams call sent =>
        simp only [State.next, State.ret, hstack]
        exact hpop _ _
      | respond it =>
        simp only [State.next, State.ret, hstack]
        refine h.frame [] (fun id c hs => ?_) rfl rfl (List.append_nil _).symm (by simp)
          fun hd => by cases he.1.symm.trans hd
        have hfind : (if id = it.id then none else s.pending id) = some c :=
          (OrderedMap.find?_erase _ _ _).symm.trans hs
        split_ifs at hfind
        exact hfind
  | raise e =>
    have hregular := hg.1
    cases hstack : s.stack with
    | nil => exact absurd hstack he.2
    | cons f stack =>
      simp only [Orderly, hstack] at hregular
      cases f with
      | respond it => exact hregular.elim
      | invalidParams call sent => simpa only [State.next, State.raise, hstack] using hpop _ _
      | send call id =>
        cases e with
        | parseError what => exact hregular.elim
        | _ => simpa only [State.next, State.raise, hstack] using hpop _ _
  | destroy =>
    refine h.frame _ (fun _ _ hs => by cases hs) rfl rfl rfl (fun i hi text ht => ?_)
      fun _ _ => rfl
    obtain ⟨c, -, rfl⟩ := List.mem_map.mp hi
    cases ht

/-- Under the guard every callback is invoked exactly once, with the right response, and
between calls the pending ids are those sent and not answered. -/
theorem callbacks_invoked_once {es : List Event}
    (h : (machine lib).Guarded (Regular lib) es s) :
    ((∀ c, s.count c ≤ 1) ∧ (s.isDestroyed = true → ∀ c < s.calls.length, s.count c = 1)) ∧
      (∀ i ∈ s.invocations, s.Right lib i) ∧
      (s.isDestroyed = false → s.stack = [] → ∀ id,
        s.impl.pendingRequests.contains id = true ↔ ∃ c, s.Sent c id ∧ s.count c = 0) ∧
      s.isUndefined = false := by
  have hinvariant : Consistent lib s ∧ Complete s :=
    h.invariant (I := fun s => Consistent lib s ∧ Complete s)
      ⟨consistent_initial, complete_initial⟩ fun _ _ hI he hg =>
        ⟨consistent_step hI.1 he hg.1, complete_step hI.2 he hg⟩
  obtain ⟨hconsistent, hcomplete⟩ := hinvariant
  refine ⟨⟨hconsistent.once, fun hdestroyed c hlt => ?_⟩, fun i hi => ?_, fun _ hidle id => ?_,
    hconsistent.defined⟩
  · by_contra hne
    have hzero : s.count c = 0 := by
      have := hconsistent.once c
      omega
    obtain ⟨id, hsent⟩ := hcomplete.waiting c hlt hzero
    have hpending := hconsistent.outstanding c id hsent hzero
    exact absurd ((hcomplete.destroyed hdestroyed id).symm.trans hpending) nofun
  · exact hconsistent.right i hi (hcomplete.solicited i hi)
  · rw [OrderedMap.contains, Option.isSome_iff_exists]
    constructor
    · rintro ⟨c, hpending⟩
      refine ⟨c, hcomplete.entries id c hpending, ?_⟩
      rcases hconsistent.unanswered id c hpending with hzero | ⟨it, hit, -⟩
      · exact hzero
      · simp [State.iterators, hidle] at hit
    · rintro ⟨c, hsent, hzero⟩
      exact ⟨c, hconsistent.outstanding c id hsent hzero⟩

instance (s : State) (e : Event) : Decidable (Orderly lib s e) := by
  unfold Orderly
  split <;> try infer_instance
  all_goals split <;> infer_instance

instance (s : State) (e : Event) : Decidable (Regular lib s e) := by
  refine @instDecidableAnd _ _ inferInstance ?_
  split <;> try infer_instance
  split <;> infer_instance

/-- The result 19 for the request with an id. -/
def responseTo (id : ℕ) : Text :=
  .dumped (makeResponseJson (.numberUnsigned 19) (.numberUnsigned id)) (utf8_makeResponseJson rfl rfl)

/-- The response is delivered from inside `_send`; the callback makes a call with malformed
parameters, and another request is pending when the requester is destroyed. -/
def nestedCalls : List Event :=
  [.request (ascii "substract") (.bytes []), .processResponse (responseTo 0),
    .request (ascii "substract") (.bytes (ascii "@#!4784")), .ret, .ret, .ret,
    .request (ascii "substract") (.bytes []), .ret, .destroy]

theorem nestedCalls_invoked_once : ∃ s, (machine (.ofTable [])).Guarded
    (Regular (.ofTable [])) nestedCalls s ∧ s.calls.length = 3 ∧
      ∀ c < s.calls.length, s.count c = 1 := by
  have hrun := Machine.Path.of_isSome (M := machine (.ofTable [])) (G := Regular (.ofTable []))
    (machine (.ofTable [])).init nestedCalls (by decide +kernel)
  exact ⟨_, hrun, by decide +kernel, (callbacks_invoked_once hrun).1.2 (by decide +kernel)⟩

/-- While the callback of request 0 runs, it makes another request, and a duplicate of its
response is delivered from inside `_send`. -/
def duplicateResponse : List Event :=
  [.request (ascii "substract") (.bytes []), .ret, .processResponse (responseTo 0),
    .request (ascii "substract") (.bytes []), .processResponse (responseTo 0)]

theorem duplicateResponse_invoked_twice : ¬ ∀ es s, (machine (.ofTable [])).Run es s →
    ∀ c, s.count c ≤ 1 := by
  intro hall
  have hrun := Machine.Path.of_isSome (M := machine (.ofTable [])) (G := fun _ _ => True)
    (machine (.ofTable [])).init duplicateResponse (by decide +kernel)
  exact absurd (hall _ _ hrun 0) (by decide +kernel)

end ExactlyOnce
end Rockets.JsonRpc.Requester
