import Rockets.HttpRegistry

set_option autoImplicit false

/-!
# Registration with the server

`Server::handle` for a single method and for an object that is read by GET and written by PUT.
The handlers of objects read and change the state of the application and give responses that
are ready at once.
-/
namespace Rockets.Http

def Code.badRequest : ℕ := 400

/-- The server as far as it registers handlers: what is thrown leaves the registry behind. -/
abbrev Registration (φ α : Type) := EStateM Exn (Registry φ) α

namespace Server

def REQUEST_REGISTRY : Bytes := ascii "registry"

section Handlers
variable {φ : Type}

def handle (action : Method) (endpoint : Bytes) (func : RESTFunc φ) : Registration φ Bool := do
  if endpoint = REQUEST_REGISTRY then throw .invalidArgument
  modifyGet fun registry => registry.add action endpoint func

end Handlers

/-- An object of the application, with the conversions that its type declares. -/
structure Obj (σ : Type) where
  to_json : σ → Bytes
  from_json : Bytes → σ → Bool × σ

section Objects
variable {σ : Type} (endpoint : Bytes) (object : Obj σ)

def getFunc : RESTFunc (StateM σ Response) := fun _ => do
  return {
    code := Code.ok
    body := .bytes (object.to_json (← get))
    headers := [(.contentType, ascii "application/json")] }

def putFunc : RESTFunc (StateM σ Response) := fun req => do
  let success ← modifyGet (object.from_json req.body)
  return { code := if success then Code.ok else Code.badRequest }

def handleGET : Registration (StateM σ Response) Bool := handle .get endpoint (getFunc object)

def handlePUT : Registration (StateM σ Response) Bool := handle .put endpoint (putFunc object)

/-- `handle` for an object: PUT is only tried if GET was accepted. -/
def handleObject : Registration (StateM σ Response) Bool := do
  if ← handleGET endpoint object then handlePUT endpoint object else return false

end Objects
end Server

namespace Registry
variable {φ : Type} {r : Registry φ} {m n : Method} {endpoint : Bytes} {func : RESTFunc φ}

theorem contains_eq_isSome (r : Registry φ) (m : Method) (endpoint : Bytes) :
    r.contains m endpoint = (r.getFunction m endpoint).isSome := rfl

theorem add_of_contains (h : r.contains m endpoint = true) (func : RESTFunc φ) :
    r.add m endpoint func = (false, r) := by
  rw [add, if_pos h]

theorem add_of_not_contains (h : r.contains m endpoint = false) (func : RESTFunc φ) :
    ∃ r', r.add m endpoint func = (true, r') ∧ ∀ n e, r'.getFunction n e =
      if n = m ∧ e = endpoint then some func else r.getFunction n e := by
  refine ⟨_, by rw [add, if_neg (by simp [h])], fun n e => ?_⟩
  simp only [getFunction, Function.update_apply]
  by_cases hn : n = m
  · subst hn
    simp only [if_true, true_and, OrderedMap.find?_set]
    by_cases he : e = endpoint
    · rw [if_pos he, if_pos (congrArg _ he)]
    · rw [if_neg he, if_neg fun heq => he (OrderDual.toDual_inj.mp heq)]
  · simp only [hn, if_false, false_and]

end Registry

namespace Server
section Handle
variable {φ : Type} {r : Registry φ} {m : Method} {endpoint : Bytes} {func : RESTFunc φ}

theorem handle_reserved : (handle m REQUEST_REGISTRY func).run r = .error .invalidArgument r := by
  simp only [handle, if_true]
  rfl

theorem handle_run (h : endpoint ≠ REQUEST_REGISTRY) : (handle m endpoint func).run r =
    .ok (r.add m endpoint func).1 (r.add m endpoint func).2 := by
  simp only [handle, if_neg h]
  rfl

end Handle

section Objects
variable {σ : Type} {r : Registry (StateM σ Response)} {endpoint : Bytes} {object : Obj σ}

/-- Both methods were free and are handled now; all other handlers are as before. -/
structure Added (r : Registry (StateM σ Response)) (endpoint : Bytes) (object : Obj σ)
    (r' : Registry (StateM σ Response)) : Prop where
  free : ∀ m, m = .get ∨ m = .put → r.contains m endpoint = false
  get : r'.getFunction .get endpoint = some (getFunc object)
  put : r'.getFunction .put endpoint = some (putFunc object)
  others : ∀ m e, ¬ (e = endpoint ∧ (m = .get ∨ m = .put)) →
    r'.getFunction m e = r.getFunction m e

/-- An object is registered for both methods, or the registry is as before. -/
def RegistersWhole (r : Registry (StateM σ Response)) (endpoint : Bytes) (object : Obj σ) : Prop :=
  match (handleObject endpoint object).run r with
  | .ok true r' => Added r endpoint object r'
  | .ok false r' | .error _ r' => r' = r

theorem handleObject_of_contains (h : endpoint ≠ REQUEST_REGISTRY)
    (hget : r.contains .get endpoint = true) :
    (handleObject endpoint object).run r = .ok false r := by
  have hrun : (handleGET endpoint object).run r = .ok false r := by
    rw [handleGET, handle_run h, Registry.add_of_contains hget]
  simp only [handleObject, EStateM.run_bind, hrun]
  rfl

/-- If GET is free, what PUT answers is the answer, and GET is handled either way. -/
theorem handleObject_of_not_contains (object : Obj σ) (h : endpoint ≠ REQUEST_REGISTRY)
    (hget : r.contains .get endpoint = false) :
    ∃ r', (handleObject endpoint object).run r = (handlePUT endpoint object).run r' ∧
      ∀ m e, r'.getFunction m e =
        if m = .get ∧ e = endpoint then some (getFunc object) else r.getFunction m e := by
  obtain ⟨r', hadd, hfun⟩ := Registry.add_of_not_contains hget (getFunc object)
  refine ⟨r', ?_, hfun⟩
  have hrun : (handleGET endpoint object).run r = .ok true r' := by
    rw [handleGET, handle_run h, hadd]
  simp only [handleObject, EStateM.run_bind, hrun]
  rfl

theorem added_of_free (object : Obj σ) (h : endpoint ≠ REQUEST_REGISTRY)
    (hget : r.contains .get endpoint = false) (hput : r.contains .put endpoint = false) :
    ∃ r', (handleObject endpoint object).run r = .ok true r' ∧ Added r endpoint object r' := by
  obtain ⟨s, hrun, hs⟩ := handleObject_of_not_contains object h hget
  have hput' : s.contains .put endpoint = false := by
    rw [Registry.contains_eq_isSome, hs, if_neg (by simp)]
    exact hput
  obtain ⟨r', hadd, hr'⟩ := Registry.add_of_not_contains hput' (putFunc object)
  refine ⟨r', ?_, ?_, ?_, ?_, fun m e hno => ?_⟩
  · rw [hrun, handlePUT, handle_run h, hadd]
  · rintro m (rfl | rfl)
    · exact hget
    · exact hput
  · rw [hr', if_neg (by simp), hs, if_pos ⟨rfl, rfl⟩]
  · rw [hr', if_pos ⟨rfl, rfl⟩]
  · rw [hr', if_neg (fun hput => hno ⟨hput.2, .inr hput.1⟩), hs,
      if_neg (fun hget => hno ⟨hget.2, .inl hget.1⟩)]

theorem half_of_contains_put (object : Obj σ) (h : endpoint ≠ REQUEST_REGISTRY)
    (hget : r.contains .get endpoint = false) (hput : r.contains .put endpoint = true) :
    ∃ r', (handleObject endpoint object).run r = .ok false r' ∧
      r'.getFunction .get endpoint = some (getFunc object) := by
  obtain ⟨s, hrun, hs⟩ := handleObject_of_not_contains object h hget
  refine ⟨s, ?_, by rw [hs, if_pos ⟨rfl, rfl⟩]⟩
  have hput' : s.contains .put endpoint = true := by
    rw [Registry.contains_eq_isSome, hs, if_neg (by simp)]
    exact hput
  rw [hrun, handlePUT, handle_run h, Registry.add_of_contains hput']

/-- Registration is all or nothing unless only PUT is handled at the endpoint. -/
theorem registersWhole_iff (r : Registry (StateM σ Response)) (endpoint : Bytes)
    (object : Obj σ) : RegistersWhole r endpoint object ↔
      endpoint = REQUEST_REGISTRY ∨ r.contains .get endpoint = true ∨
        r.contains .put endpoint = false := by
  unfold RegistersWhole
  by_cases h : endpoint = REQUEST_REGISTRY
  · have hrun : (handleObject endpoint object).run r = .error .invalidArgument r := by
      simp only [handleObject, EStateM.run_bind, handleGET, h, handle_reserved]
    rw [hrun]
    exact iff_of_true rfl (.inl h)
  · cases hget : r.contains .get endpoint with
    | true =>
      rw [handleObject_of_contains h hget]
      exact iff_of_true rfl (.inr (.inl rfl))
    | false =>
      cases hput : r.contains .put endpoint with
      | false =>
        obtain ⟨r', hrun, hadded⟩ := added_of_free object h hget hput
        rw [hrun]
        exact iff_of_true hadded (.inr (.inr rfl))
      | true =>
        obtain ⟨r', hrun, hserved⟩ := half_of_contains_put object h hget hput
        rw [hrun]
        refine iff_of_false (fun heq => ?_) (by simp [h])
        rw [show r' = r from heq] at hserved
        rw [Registry.contains_eq_isSome, hserved] at hget
        cases hget

end Objects

/-- An endpoint to which a handler for PUT was registered before. -/
def putOnly : Registry (StateM Bytes Response) :=
  (({} : Registry (StateM Bytes Response)).add .put (ascii "foo") fun _ => pure {}).2

/-- The object that is refused at such an endpoint is served. -/
theorem putOnly_halfRegistered : ¬ ∀ (r : Registry (StateM Bytes Response)) (endpoint : Bytes)
    (object : Obj Bytes), RegistersWhole r endpoint object := by
  intro hall
  have hget : putOnly.contains .get (ascii "foo") = false := by decide
  have hput : putOnly.contains .put (ascii "foo") = true := by decide
  let object : Obj Bytes := { to_json := id, from_json := fun b _ => (true, b) }
  obtain ⟨r', hrun, hserved⟩ := half_of_contains_put object (by decide) hget hput
  have hwhole := hall putOnly (ascii "foo") object
  rw [RegistersWhole, hrun] at hwhole
  rw [show r' = putOnly from hwhole] at hserved
  rw [Registry.contains_eq_isSome, hserved] at hget
  cases hget

end Server
end Rockets.Http
