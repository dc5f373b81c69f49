import Rockets.JsonRpcRequestProcessor

set_option autoImplicit false

/-!
# What a message is answered with

The processing of a request against its outcome: the action it performs, the value it is
answered with, and what is left in the receiver once it is answered.
-/
namespace Rockets.JsonRpc
variable {α τ β γ : Type} (lib : JsonLib)

section Rules
variable {x : Effect α τ β} {f : β → Effect α τ γ} {w v : World α τ}

theorem bind_of_ok {b : β} (h : x.run w = .ok b v) : (x >>= f).run w = (f b).run v := by
  rw [EStateM.run_bind, h]

theorem bind_of_error {e : Stop} (h : x.run w = .error e v) :
    (x >>= f).run w = .error e v := by
  rw [EStateM.run_bind, h]

@[simp] theorem run_call (g : α → β × α) (w : World α τ) :
    (call g : Effect α τ β).run w = .ok (g w.app).1 { w with app := (g w.app).2 } := rfl

@[simp] theorem run_modifyRequests (g : PendingRequests α → PendingRequests α)
    (w : World α τ) : (modifyRequests g : Effect α τ Unit).run w =
      .ok () { w with requests := g w.requests } := rfl

@[simp] theorem run_raise (e : Exn) (w : World α τ) :
    (raise e : Effect α τ β).run w = .error (.threw e) w := rfl

/-- A computation that ends as an operation on values says: with `b` in the world it
gives, or with its exception and nothing written. -/
def Ends (x : Effect α τ β) (b : β) (w : World α τ) : Except Exn (World α τ) → Prop
  | .ok v => x.run w = .ok b v
  | .error e => ∃ v, x.run w = .error (.threw e) v ∧ v.out = w.out

theorem Ends.bind_ok {b : β} {c : γ} {r : Except Exn (World α τ)} (h : x.run w = .ok b v)
    (hv : v.out = w.out) (hf : Ends (f b) c v r) : Ends (x >>= f) c w r := by
  cases r with
  | ok u => exact (bind_of_ok h).trans hf
  | error e =>
    obtain ⟨u, hu, hout⟩ := hf
    exact ⟨u, (bind_of_ok h).trans hu, hout.trans hv⟩

theorem Ends.bind_map {b : β} {c : γ} {r : Except Exn (World α τ)} (h : Ends x b w r)
    {g : World α τ → World α τ} (hf : ∀ v, (f b).run v = .ok c (g v)) :
    Ends (x >>= f) c w (r.map g) := by
  cases r with
  | ok v => exact (bind_of_ok h).trans (hf v)
  | error e =>
    obtain ⟨v, hv, hout⟩ := h
    exact ⟨v, bind_of_error hv, hout⟩

theorem Ends.andReturn {b : β} {r : Except Exn (World α τ)} (h : Ends x b w r) (c : γ) :
    Ends (do let _ ← x; return c) c w r := by
  cases r with
  | ok v => exact bind_of_ok h
  | error e =>
    obtain ⟨v, hv, hout⟩ := h
    exact ⟨v, bind_of_error hv, hout⟩

theorem ends_send (respond : JsonResponseCallback τ) (j : Json) (w : World α τ) :
    Ends (send respond j) () w ((respond j w.out).map fun out => { w with out }) := by
  refine Ends.bind_ok (x := get) (b := w) rfl rfl ?_
  cases respond j w.out with
  | ok out => rfl
  | error e => exact ⟨w, rfl, rfl⟩

end Rules

namespace PendingRequests
variable {lib}

theorem contains_alter (id : Json) (f : Option (Entry α) → Entry α) (es : PendingRequests α) :
    (es.alter lib id f).contains lib id = true := by
  induction es with
  | nil => simp [alter, contains, lib.sameKey_refl]
  | cons e es ih =>
    simp only [alter]
    split_ifs with h
    · simp [contains, h]
    · simpa [contains, h] using ih

theorem contains_storeCancelFunc {id : Json} {es : PendingRequests α}
    (cancelFunc : Option (CancelRequestCallback α)) (h : es.contains lib id = true) :
    PendingRequests.contains lib id (Receiver.storeCancelFunc lib id cancelFunc es) = true := by
  cases cancelFunc with
  | none => exact h
  | some _ => exact contains_alter id _ es

theorem erase_alter (id : Json) (f : Option (Entry α) → Entry α) (es : PendingRequests α) :
    (es.alter lib id f).erase lib id = es.erase lib id := by
  induction es with
  | nil => simp [alter, erase, lib.sameKey_refl]
  | cons e es ih =>
    simp only [alter]
    split_ifs with h
    · simp [erase, h]
    · simpa [erase, h] using ih

theorem erase_storeCancelFunc (id : Json) (cancelFunc : Option (CancelRequestCallback α))
    (es : PendingRequests α) :
    PendingRequests.erase lib id (Receiver.storeCancelFunc lib id cancelFunc es) =
      es.erase lib id := by
  cases cancelFunc with
  | none => rfl
  | some _ => exact erase_alter id _ es

end PendingRequests

/-- The value a request is answered with; null stands for no reply. -/
def replyJson (id : Json) (rep : Response) : Except Exn Json :=
  if id.isNull then .ok .null else makeResponse lib rep id

def sendReply (id : Json) (respond : JsonResponseCallback τ) (rep : Response) (out : τ) :
    Except Exn τ := do
  respond (← replyJson lib id rep) out

/-- What the action bound to a method does with a request: its answer, the application's
new state, and the effect on the table of the request and its answer. -/
structure Deed (α : Type) where
  given : Answer
  app : α
  requests : PendingRequests α → PendingRequests α

/-- The receiver once the action is done and answered. -/
def Deed.world (deed : Deed α) (w : World α τ) (out : τ) : World α τ :=
  { w with app := deed.app, requests := deed.requests w.requests, out }

def Answer.isLater : Answer → Bool
  | .now _ => false
  | .later _ => true

/-- A cancel function that is stored after the answer makes an entry of its own. -/
def cancellableEffect (id : Json) (given : Answer)
    (cancelFunc : Option (CancelRequestCallback α)) (es : PendingRequests α) :
    PendingRequests α :=
  match given with
  | .now _ => Receiver.storeCancelFunc lib id cancelFunc (es.erase lib id)
  | .later _ => es.erase lib id

theorem cancellableEffect_alter (id : Json) (given : Answer)
    (cancelFunc : Option (CancelRequestCallback α)) (f : Option (Entry α) → Entry α)
    (es : PendingRequests α) : cancellableEffect lib id given cancelFunc (es.alter lib id f) =
      cancellableEffect lib id given cancelFunc es := by
  cases given <;> simp only [cancellableEffect, PendingRequests.erase_alter]

namespace Receiver
variable (recv : Receiver α)

def syncDeed (method : Bytes) (request : Request) (app : α) : Option (Deed α) :=
  (recv.methods.find? method).map fun action =>
    let (rep, app) := action request app
    { given := .now rep, app, requests := id }

def asyncDeed (method : Bytes) (request : Request) (app : α) : Option (Deed α) :=
  ((recv.asyncMethods.find? method).map fun func =>
    let (given, app) := func request app
    { given, app, requests := id }).or (recv.syncDeed method request app)

def cancellableDeed (id : Json) (method : Bytes) (request : Request) (app : α) :
    Option (Deed α) :=
  ((recv.cancellableMethods.find? method).map fun func =>
    let ((given, cancelFunc), app) := func request app
    { given, app, requests := cancellableEffect lib id given cancelFunc }).or
      (recv.asyncDeed method request app)

def deed (id : Json) (method : Bytes) (request : Request) (app : α) : Option (Deed α) :=
  match recv.kind with
  | .receiver => recv.syncDeed method request app
  | .async => recv.asyncDeed method request app
  | .cancellable => recv.cancellableDeed lib id method request app

/-- The action that is run, with the reasons why no table before its own has one. -/
inductive Dispatches (id : Json) (method : Bytes) (request : Request) (app : α) : Deed α → Prop where
  | sync (action : ResponseCallback α) (bound : recv.methods.find? method = some action)
      (notAsync : recv.kind ≠ .receiver → recv.asyncMethods.find? method = none)
      (notCancellable : recv.kind = .cancellable → recv.cancellableMethods.find? method = none) :
      Dispatches id method request app
        { given := .now (action request app).1, app := (action request app).2
          requests := fun es => es }
  | async (func : DelayedResponseCallback α) (bound : recv.asyncMethods.find? method = some func)
      (derived : recv.kind ≠ .receiver)
      (notCancellable : recv.kind = .cancellable → recv.cancellableMethods.find? method = none) :
      Dispatches id method request app
        { given := (func request app).1, app := (func request app).2, requests := fun es => es }
  | cancellable (func : CancellableResponseCallback α)
      (bound : recv.cancellableMethods.find? method = some func)
      (derived : recv.kind = .cancellable) :
      Dispatches id method request app
        { given := (func request app).1.1, app := (func request app).2
          requests := cancellableEffect lib id (func request app).1.1 (func request app).1.2 }

end Receiver

/-- An operation that answers in time ends as `r`; one that answers later returns the
completion that does. -/
def Concludes (x : Effect α τ (Option (Effect α τ Unit))) (later : Bool) (w : World α τ)
    (r : Except Exn (World α τ)) : Prop :=
  if later then ∃ completion v, x.run w = .ok (some completion) v ∧ v.out = w.out ∧
    Ends completion () v r
  else Ends x none w r

theorem Concludes.bind_ok {x : Effect α τ β}
    {f : β → Effect α τ (Option (Effect α τ Unit))} {b : β} {later : Bool}
    {w v : World α τ} {r : Except Exn (World α τ)} (h : x.run w = .ok b v)
    (hv : v.out = w.out) (hf : Concludes (f b) later v r) : Concludes (x >>= f) later w r := by
  cases later with
  | false => exact Ends.bind_ok h hv hf
  | true =>
    obtain ⟨completion, u, hu, hout, hr⟩ := hf
    exact ⟨completion, u, (bind_of_ok h).trans hu, hout.trans hv, hr⟩

section Process
variable {lib} {recv : Receiver α} {respond : JsonResponseCallback τ}

theorem ends_reply (id : Json) (rep : Response) (w : World α τ) :
    Ends (Receiver.reply lib id respond rep) () w
      ((sendReply lib id respond rep w.out).map fun out => { w with out }) := by
  unfold Receiver.reply sendReply replyJson
  split_ifs with h
  · exact ends_send respond .null w
  · cases makeResponse lib rep id with
    | ok j => exact ends_send respond j w
    | error e => exact ⟨w, rfl, rfl⟩

variable (respond) in
theorem ends_complete {id : Json} {w : World α τ} (hw : w.requests.contains lib id = true)
    (rep : Response) : Ends (Receiver.complete lib id respond rep) () w
      ((sendReply lib id respond rep w.out).map fun out =>
        { w with requests := w.requests.erase lib id, out }) := by
  have hskip : (Receiver.skipResponse lib id : Effect α τ Bool).run w =
      .ok false { w with requests := w.requests.erase lib id } := by
    simp only [Receiver.skipResponse, EStateM.run_bind, EStateM.run_get, run_modifyRequests,
      EStateM.run_pure, hw, Bool.not_true]
  exact Ends.bind_ok hskip rfl (ends_reply id rep _)

theorem concludes_answer {f : Response → Effect α τ Unit} {w : World α τ}
    {r : Except Exn (World α τ)} (given : Answer) (h : Ends (f given.response) () w r) :
    Concludes (Receiver.answer f given) given.isLater w r := by
  cases given with
  | later rep => exact ⟨f rep, w, rfl, rfl, h⟩
  | now rep =>
    cases r with
    | ok v => exact bind_of_ok h
    | error e =>
      obtain ⟨v, hv, hout⟩ := h
      exact ⟨v, bind_of_error hv, hout⟩

variable (respond) in
/-- A cancellable action's answer and the storing of its cancel function, from a table that
has an entry for the request. -/
theorem concludes_cancellable {id : Json} {w : World α τ}
    (hw : w.requests.contains lib id = true) (given : Answer)
    (cancelFunc : Option (CancelRequestCallback α)) :
    Concludes (do
        let later ← Receiver.answer (Receiver.complete lib id respond) given
        modifyRequests (Receiver.storeCancelFunc lib id cancelFunc)
        return later) given.isLater w
      ((sendReply lib id respond given.response w.out).map fun out =>
        { w with requests := cancellableEffect lib id given cancelFunc w.requests, out }) := by
  cases given with
  | now rep =>
    have h := (concludes_answer (.now rep) (ends_complete respond hw rep)).bind_map
      (f := fun later => do
        modifyRequests (Receiver.storeCancelFunc lib id cancelFunc)
        return later) (c := none) fun v => rfl
    show Ends _ none w ((sendReply lib id respond rep w.out).map _)
    cases hr : sendReply lib id respond rep w.out with
    | ok out =>
      rw [hr] at h
      exact h
    | error e =>
      rw [hr] at h
      exact h
  | later rep =>
    refine ⟨_, _, rfl, rfl, ?_⟩
    have h := ends_complete respond
      (w := { w with requests := Receiver.storeCancelFunc lib id cancelFunc w.requests })
      (PendingRequests.contains_storeCancelFunc cancelFunc hw) rep
    simp only [PendingRequests.erase_storeCancelFunc] at h
    exact h

variable {id : Json} {method : Bytes} {request : Request} {w : World α τ} {deed : Deed α}

/-- How the world ends up if the response is encoded and can be sent. -/
def Deed.outcome (lib : JsonLib) (id : Json) (respond : JsonResponseCallback τ) (deed : Deed α)
    (w : World α τ) : Except Exn (World α τ) :=
  (sendReply lib id respond deed.given.response w.out).map (deed.world w)

variable {app : α}

theorem dispatches_of_sync (h : recv.syncDeed method request app = some deed)
    (notAsync : recv.kind ≠ .receiver → recv.asyncMethods.find? method = none)
    (notCancellable : recv.kind = .cancellable → recv.cancellableMethods.find? method = none) :
    recv.Dispatches lib id method request app deed := by
  obtain ⟨action, haction, rfl⟩ := Option.map_eq_some_iff.mp h
  exact .sync action haction notAsync notCancellable

theorem dispatches_of_async (h : recv.asyncDeed method request app = some deed)
    (derived : recv.kind ≠ .receiver)
    (notCancellable : recv.kind = .cancellable → recv.cancellableMethods.find? method = none) :
    recv.Dispatches lib id method request app deed := by
  rcases Option.or_eq_some_iff.mp h with h | ⟨hnone, h⟩
  · obtain ⟨func, hfunc, rfl⟩ := Option.map_eq_some_iff.mp h
    exact .async func hfunc derived notCancellable
  · exact dispatches_of_sync h (fun _ => Option.map_eq_none_iff.mp hnone) notCancellable

theorem dispatches_of_deed (h : recv.deed lib id method request app = some deed) :
    recv.Dispatches lib id method request app deed := by
  unfold Receiver.deed at h
  cases hkind : recv.kind with
  | receiver =>
    simp only [hkind] at h
    exact dispatches_of_sync h (by simp [hkind]) (by simp [hkind])
  | async =>
    simp only [hkind] at h
    exact dispatches_of_async h (by simp [hkind]) (by simp [hkind])
  | cancellable =>
    simp only [hkind] at h
    rcases Option.or_eq_some_iff.mp h with h | ⟨hnone, h⟩
    · obtain ⟨func, hfunc, rfl⟩ := Option.map_eq_some_iff.mp h
      exact .cancellable func hfunc hkind
    · exact dispatches_of_async h (by simp [hkind]) fun _ => Option.map_eq_none_iff.mp hnone

theorem process_eq_async (hm : recv.kind = .cancellable → method ≠ cancelMethodName)
    (derived : recv.kind ≠ .receiver)
    (notCancellable : recv.kind = .cancellable → recv.cancellableMethods.find? method = none) :
    recv.process lib id method request respond =
      recv.processAsync lib id method request respond := by
  unfold Receiver.process
  cases hkind : recv.kind with
  | receiver => exact absurd hkind derived
  | async => rfl
  | cancellable => simp only [Receiver.processCancellable, if_neg (hm hkind), notCancellable hkind]

theorem process_eq_sync (hm : recv.kind = .cancellable → method ≠ cancelMethodName)
    (notAsync : recv.kind ≠ .receiver → recv.asyncMethods.find? method = none)
    (notCancellable : recv.kind = .cancellable → recv.cancellableMethods.find? method = none) :
    recv.process lib id method request respond =
      recv.processSync lib id method request respond := by
  by_cases hkind : recv.kind = .receiver
  · simp only [Receiver.process, hkind]
  · rw [process_eq_async hm hkind notCancellable, Receiver.processAsync, notAsync hkind]

variable (respond) in
/-- Every bound action is run as its deed says. -/
theorem process_concludes (hm : recv.kind = .cancellable → method ≠ cancelMethodName)
    (h : recv.deed lib id method request w.app = some deed) :
    Concludes (recv.process lib id method request respond) deed.given.isLater w
      (deed.outcome lib id respond w) := by
  cases dispatches_of_deed h with
  | sync action bound notAsync notCancellable =>
    rw [process_eq_sync hm notAsync notCancellable]
    simp only [Receiver.processSync, bound]
    refine Concludes.bind_ok (run_call _ w) rfl ?_
    exact concludes_answer (.now _) (ends_reply id _ _)
  | async func bound derived notCancellable =>
    rw [process_eq_async hm derived notCancellable]
    simp only [Receiver.processAsync, bound]
    refine Concludes.bind_ok (run_call _ w) rfl ?_
    exact concludes_answer _ (ends_reply id _ _)
  | cancellable func bound derived =>
    simp only [Receiver.process, derived, Receiver.processCancellable, if_neg (hm derived), bound]
    refine Concludes.bind_ok (run_modifyRequests _ w) rfl ?_
    refine Concludes.bind_ok (run_call _ _) rfl ?_
    have hentry : PendingRequests.contains lib id _ = true := PendingRequests.contains_alter id
      (fun _ => { first := Receiver.temporary, second := .bound }) w.requests
    have hdone := concludes_cancellable respond
      (w := ⟨(func request w.app).2, _, w.aborted, w.out⟩) hentry (func request w.app).1.1
      (func request w.app).1.2
    simp only [cancellableEffect_alter] at hdone
    exact hdone

variable (lib) in
theorem deed_isSome (hm : recv.kind = .cancellable → method ≠ cancelMethodName)
    (h : recv.isRegisteredMethodName method = true) (id : Json) (request : Request) (app : α) :
    (recv.deed lib id method request app).isSome = true := by
  unfold Receiver.isRegisteredMethodName OrderedMap.contains at h
  unfold Receiver.deed Receiver.cancellableDeed Receiver.asyncDeed Receiver.syncDeed
  cases hkind : recv.kind with
  | receiver => simpa [hkind] using h
  | async => simpa [hkind] using h
  | cancellable => simpa [hkind, hm hkind, or_assoc] using h

end Process
end Rockets.JsonRpc
