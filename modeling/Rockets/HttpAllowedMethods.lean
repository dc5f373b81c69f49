import Rockets.HttpConnection
import Rockets.HttpRouting

set_option autoImplicit false

/-!
# Advertised methods

The methods allowed at a path are told to clients in the replies to requests for it: in the
Allow header of an error and in the reply to a preflight request. They are those whose
registry has the path itself as an endpoint, whereas requests are dispatched by prefix.
-/
namespace Rockets.Http
open ConnectionHandler

def comma : Fin 256 := 44

def space : Fin 256 := 32

/-- The items of a header that holds a list. -/
def items (value : Bytes) : List Bytes :=
  (value.splitOn comma).map fun item => item.dropWhile (· = space)

theorem intercalate_comma_space (x : Bytes) (xs : List Bytes) :
    List.intercalate (ascii ", ") (x :: xs) =
      List.intercalate [comma] (x :: xs.map (space :: ·)) := by
  have hsep : ascii ", " = [comma, space] := by decide
  induction xs generalizing x with
  | nil => simp
  | cons y ys ih =>
    rw [List.intercalate_cons_cons, ih, List.map_cons, List.intercalate_cons_cons, hsep]
    cases ys <;> simp

theorem dropWhile_space {x : Bytes} (h : x.head? ≠ some space) :
    x.dropWhile (· = space) = x := by
  cases x with
  | nil => rfl
  | cons b bs =>
    have hb : b ≠ space := fun hb => h (congrArg some hb)
    simp [hb]

theorem items_intercalate {xs : List Bytes} (hne : xs ≠ [])
    (h : ∀ x ∈ xs, comma ∉ x ∧ x.head? ≠ some space) :
    items (List.intercalate (ascii ", ") xs) = xs := by
  cases xs with
  | nil => exact absurd rfl hne
  | cons x xs =>
    have hcomma : ∀ y ∈ x :: xs.map (space :: ·), comma ∉ y := by
      intro y hy
      rcases List.mem_cons.mp hy with rfl | hy
      · exact (h y (by simp)).1
      · obtain ⟨z, hz, rfl⟩ := List.mem_map.mp hy
        have hz := (h z (List.mem_cons_of_mem _ hz)).1
        simp only [List.mem_cons, not_or]
        exact ⟨by decide, hz⟩
    rw [items, intercalate_comma_space, List.splitOn_intercalate comma hcomma (by simp)]
    simp only [List.map_cons, List.map_map, List.cons.injEq]
    refine ⟨dropWhile_space (h x (by simp)).2, ?_⟩
    conv_rhs => rw [← List.map_id xs]
    apply List.map_congr_left
    intro y hy
    have hy := (h y (List.mem_cons_of_mem _ hy)).2
    simpa using dropWhile_space hy

namespace Method

theorem name_injective {m n : Method} (h : m.name = n.name) : m = n := by
  cases m <;> cases n <;> first | rfl | exact absurd h (by decide)

theorem name_isItem (m : Method) : comma ∉ m.name ∧ m.name.head? ≠ some space := by
  cases m <;> decide

theorem name_ne_nil (m : Method) : m.name ≠ [] := by
  cases m <;> decide

theorem mem_all (m : Method) : m ∈ all := by
  cases m <;> decide

end Method

namespace Registry
variable {φ : Type} (r : Registry φ)

/-- A method is in the list that clients are told. -/
def Advertises (p : Bytes) (m : Method) : Prop := m.name ∈ items (r.getAllowedMethods p)

theorem advertises_iff (p : Bytes) (m : Method) :
    r.Advertises p m ↔ r.contains m p = true := by
  unfold Advertises getAllowedMethods
  set ms := Method.all.filter fun m => r.contains m p with hms
  have hmem : m ∈ ms ↔ r.contains m p = true := by simp [hms, m.mem_all]
  by_cases hne : ms = []
  · rw [hne] at hmem ⊢
    refine iff_of_false ?_ (by simpa using hmem)
    have hnil : items (List.intercalate (ascii ", ") (([] : List Method).map Method.name)) =
        [[]] := rfl
    rw [hnil, List.mem_singleton]
    exact m.name_ne_nil
  · rw [items_intercalate (by simpa using hne)]
    · rw [← hmem]
      constructor
      · intro h
        obtain ⟨n, hn, heq⟩ := List.mem_map.mp h
        rwa [← Method.name_injective heq]
      · exact fun h => List.mem_map_of_mem h
    · intro x hx
      obtain ⟨n, -, rfl⟩ := List.mem_map.mp hx
      exact n.name_isItem

theorem getAllowedMethods_eq_nil (p : Bytes) :
    r.getAllowedMethods p = [] ↔ ∀ m, r.contains m p = false := by
  constructor
  · intro h m
    by_contra hm
    have hadv := (r.advertises_iff p m).mpr (by simpa using hm)
    rw [Advertises, h] at hadv
    exact m.name_ne_nil (List.mem_singleton.mp hadv)
  · intro h
    have hnil : (Method.all.filter fun m => r.contains m p) = [] := by simp [h]
    rw [getAllowedMethods, hnil]
    rfl

end Registry

namespace ConnectionHandler

/-- The request reaches the handler of an endpoint. -/
def IsDispatched {φ : Type} : Except Exn (Generated φ) → Prop
  | .ok (.called _ _ _) => True
  | _ => False

/-- An endpoint above the path takes its requests, and the path itself is not registered. -/
def ServedFromAbove {φ : Type} (r : Registry φ) (m : Method) (p : Bytes) : Prop :=
  r.contains m p = false ∧ (∃ d, r.contains m d = true ∧ Matches d p) ∧ ¬ Shadowed r m p

theorem servingEndpoint_isSome_iff {φ : Type} (r : Registry φ) (m : Method) (p : Bytes) :
    (servingEndpoint r m p).isSome = true ↔
      (∃ d, r.contains m d = true ∧ Matches d p) ∧ ¬ Shadowed r m p := by
  cases h : servingEndpoint r m p with
  | none =>
    have hnone := servingEndpoint_none h
    refine iff_of_false (by simp) ?_
    rintro ⟨⟨d, hd, hm⟩, hshadow⟩
    exact hnone.mpr hshadow d hd hm
  | some served =>
    obtain ⟨e, rest⟩ := served
    obtain ⟨he, -, hm, -⟩ := servingEndpoint_some h
    exact iff_of_true rfl ⟨⟨e, he, hm⟩, not_shadowed_of_serving h⟩

theorem servingEndpoint_of_contains {φ : Type} {r : Registry φ} {m : Method} {p : Bytes}
    (h : r.contains m p = true) : (servingEndpoint r m p).isSome = true := by
  rw [servingEndpoint_isSome_iff]
  refine ⟨⟨p, h, .inl rfl⟩, ?_⟩
  rintro ⟨e, -, -, hep, hne, -, hlongest, -⟩
  exact hne (hep.eq_of_length_le (hlongest p h (List.prefix_refl p)))

section Requests
variable {r : Registry Future} {filter : Option Filter} {m : Method} {request : Request}

theorem filter_eq_none (hfilter : ∀ f, filter = some f → f.filter request = false) :
    (filter.filter fun f => f.filter request) = none := by
  cases filter with
  | none => rfl
  | some f => simp [hfilter f rfl]

theorem isDispatched_iff (hmethod : request.method = some m)
    (hfilter : ∀ f, filter = some f → f.filter request = false)
    (hp : request.getPathWithoutLeadingSlash ≠ ascii "registry") :
    IsDispatched (generateResponse r filter request) ↔
      (servingEndpoint r m request.getPathWithoutLeadingSlash).isSome = true := by
  unfold generateResponse
  simp only [filter_eq_none hfilter, hmethod, hp, and_false, if_false]
  cases hs : servingEndpoint r m request.getPathWithoutLeadingSlash with
  | none =>
    dsimp only
    split_ifs <;> simp [IsDispatched]
  | some served =>
    obtain ⟨e, rest⟩ := served
    obtain ⟨func, hfunc⟩ := Registry.getFunction_isSome (servingEndpoint_some hs).1
    simp only [hfunc]
    exact iff_of_true trivial rfl

theorem method_of_isDispatched (h : IsDispatched (generateResponse r filter request)) :
    ∃ m, request.method = some m := by
  rcases generateResponse_cases r filter request with
    ⟨hm, -⟩ | ⟨response, hok⟩ | ⟨m, -, -, -, hm, -⟩ | ⟨-, -, hok⟩
  · exact ⟨_, hm⟩
  · rw [hok] at h
    exact h.elim
  · exact ⟨m, hm⟩
  · rw [hok] at h
    exact h.elim

theorem refused (hmethod : request.method = some m)
    (hfilter : ∀ f, filter = some f → f.filter request = false)
    (hp : request.getPathWithoutLeadingSlash ≠ ascii "registry")
    (hs : servingEndpoint r m request.getPathWithoutLeadingSlash = none)
    (hallowed : r.getAllowedMethods request.getPathWithoutLeadingSlash ≠ []) :
    generateResponse r filter request = .ok (.ready
      { code := Code.notSupported
        headers := [(.allow, r.getAllowedMethods request.getPathWithoutLeadingSlash)] }) := by
  unfold generateResponse
  simp only [filter_eq_none hfilter, hmethod, hp, and_false, if_false, hs]
  rw [if_neg (by simpa using hallowed)]

end Requests

/-- What clients are told about the methods of a path is what their requests for the path
meet, and a request with a method that is not served there is told so. -/
structure AllowedAsDispatched (r : Registry Future) (p : Bytes) (filter : Option Filter)
    (m : Method) (request : Request) : Prop where
  allow : r.Advertises p m ↔ IsDispatched (generateResponse r filter request)
  preflight : ∀ value, (.accessControlAllowMethods, value) ∈ makeCorsPreflightResponseHeaders r p →
    (m.name ∈ items value ↔ IsDispatched (generateResponse r filter request))
  notSupported : ¬ IsDispatched (generateResponse r filter request) →
    (∃ other : Request, other.getPathWithoutLeadingSlash = p ∧
      IsDispatched (generateResponse r none other)) →
    generateResponse r filter request = .ok (.ready
      { code := Code.notSupported, headers := [(.allow, r.getAllowedMethods p)] })

theorem allowedAsDispatched_of_not_above {r : Registry Future} {p : Bytes}
    {filter : Option Filter} {m : Method} {request : Request} (hp : p ≠ ascii "registry")
    (h : ∀ m, ¬ ServedFromAbove r m p) (hmethod : request.method = some m)
    (hfilter : ∀ f, filter = some f → f.filter request = false)
    (hpath : request.getPathWithoutLeadingSlash = p) :
    AllowedAsDispatched r p filter m request := by
  subst hpath
  have hserved : ∀ m, (servingEndpoint r m request.getPathWithoutLeadingSlash).isSome = true ↔
      r.contains m request.getPathWithoutLeadingSlash = true := by
    refine fun m => ⟨fun hs => ?_, servingEndpoint_of_contains⟩
    by_contra hc
    exact h m ⟨by simpa using hc, (servingEndpoint_isSome_iff r m _).mp hs⟩
  have hallow : r.Advertises request.getPathWithoutLeadingSlash m ↔
      IsDispatched (generateResponse r filter request) := by
    rw [Registry.advertises_iff, isDispatched_iff hmethod hfilter hp, hserved]
  refine ⟨hallow, ?_, ?_⟩
  · intro value hvalue
    obtain rfl : value = r.getAllowedMethods request.getPathWithoutLeadingSlash := by
      simpa [makeCorsPreflightResponseHeaders] using hvalue
    exact hallow
  · rintro hno ⟨other, hother, hdispatched⟩
    obtain ⟨n, hn⟩ := method_of_isDispatched hdispatched
    rw [isDispatched_iff hmethod hfilter hp] at hno
    rw [isDispatched_iff hn (by simp) (by rw [hother]; exact hp), hother, hserved] at hdispatched
    refine refused hmethod hfilter hp (by simpa using hno) fun hnil => ?_
    have hnone := (r.getAllowedMethods_eq_nil _).mp hnil n
    rw [hdispatched] at hnone
    cases hnone

/-- For every method, the replies about a path agree with how requests for it are dispatched
if and only if no method has the path served from above only. -/
theorem allowedAsDispatched_iff (r : Registry Future) {p : Bytes} (hp : p ≠ ascii "registry") :
    (∀ (filter : Option Filter) (m : Method) (request : Request), request.method = some m →
      (∀ f, filter = some f → f.filter request = false) →
      request.getPathWithoutLeadingSlash = p → AllowedAsDispatched r p filter m request) ↔
      ∀ m, ¬ ServedFromAbove r m p := by
  constructor
  · rintro hall m ⟨hcontains, habove⟩
    have hpath : Request.getPathWithoutLeadingSlash
        { method := some m, path := slash :: p } = p := by
      simp [Request.getPathWithoutLeadingSlash]
    have hallow := (hall none m { method := some m, path := slash :: p } rfl (by simp) hpath).allow
    rw [Registry.advertises_iff, isDispatched_iff rfl (by simp) (by rw [hpath]; exact hp), hpath,
      servingEndpoint_isSome_iff] at hallow
    rw [hallow.mpr habove] at hcontains
    cases hcontains
  · exact fun h filter m request => allowedAsDispatched_of_not_above hp h

/-- One endpoint that takes everything below it. -/
def objectsRegistry : Registry Future :=
  (({} : Registry Future).add .get (ascii "objects/") fun _ => .pending).2

theorem allowedAsDispatched_iff_objects :
    (∀ (filter : Option Filter) (m : Method) (request : Request), request.method = some m →
      (∀ f, filter = some f → f.filter request = false) →
      request.getPathWithoutLeadingSlash = ascii "objects/" →
      AllowedAsDispatched objectsRegistry (ascii "objects/") filter m request) ↔
      ∀ m, ¬ ServedFromAbove objectsRegistry m (ascii "objects/") :=
  allowedAsDispatched_iff objectsRegistry (by decide)

/-- The path `objects/1` can be read, but no method is allowed there. -/
theorem objects_served_from_above : ¬ ∀ (r : Registry Future) (p : Bytes),
    p ≠ ascii "registry" → ∀ (filter : Option Filter) (m : Method) (request : Request),
      request.method = some m → (∀ f, filter = some f → f.filter request = false) →
      request.getPathWithoutLeadingSlash = p → AllowedAsDispatched r p filter m request := by
  intro hall
  have hallow := (hall objectsRegistry (ascii "objects/1") (by decide) none .get
    { method := some .get, path := ascii "/objects/1" } rfl (by simp) (by decide)).allow
  rw [Registry.advertises_iff] at hallow
  exact absurd (hallow.mpr trivial) (by decide)

end ConnectionHandler
end Rockets.Http
