import Rockets.HttpConnectionHandler

set_option autoImplicit false

/-!
# Which endpoint serves a path

An endpoint serves the path it spells, and every path below it if it ends with a
slash; the endpoint `/` takes what nothing else takes. The handler looks up the longest
registered prefix first and asks only then whether it may serve the path, so an endpoint
that may not hides the ones that could.
-/
namespace Rockets.Http.ConnectionHandler
open Registry (root find beginsWithPath findEndpoint_of_find findEndpoint_of_find_none)
variable {φ : Type}

def Matches (e p : Bytes) : Prop :=
  e = p ∨ (endsWithSlash e = true ∧ e <+: p) ∨ e = root

/-- An exact match comes first, then the longest prefix, `/` last. -/
def AtLeastAsSpecific (p e d : Bytes) : Prop :=
  e = p ∨ (d ≠ p ∧ (d = root ∨ (e ≠ root ∧ d.length ≤ e.length)))

/-- The path below the endpoint. -/
def removed (e p : Bytes) : Bytes := if e = root then p else p.drop e.length

/-- A request is given to the handler of the most specific match, if there is a match. -/
def RoutedToMostSpecific (r : Registry φ) (m : Method) (request : Request) :
    Except Exn (Generated φ) → Prop
  | .ok (.called e shown future) =>
    (∃ func, r.getFunction m e = some func ∧ future = func shown) ∧
    shown = { request with path := removed e request.getPathWithoutLeadingSlash } ∧
    Matches e request.getPathWithoutLeadingSlash ∧
    ∀ d, r.contains m d = true → Matches d request.getPathWithoutLeadingSlash →
      AtLeastAsSpecific request.getPathWithoutLeadingSlash e d
  | .ok (.ready _) => ∀ d, r.contains m d = true →
      ¬ Matches d request.getPathWithoutLeadingSlash
  | .ok .undefined | .error _ => False

/-- The longest registered prefix of the path is a proper one that does not end with a
slash, although another endpoint matches the path. -/
def Shadowed (r : Registry φ) (m : Method) (p : Bytes) : Prop :=
  ∃ e, r.contains m e = true ∧ e ≠ [] ∧ e <+: p ∧ e ≠ p ∧ endsWithSlash e = false ∧
    (∀ d, r.contains m d = true → d <+: p → d.length ≤ e.length) ∧
    ∃ d, r.contains m d = true ∧ Matches d p

theorem endsWithSlash_ne_nil {e : Bytes} (h : endsWithSlash e = true) : e ≠ [] := by
  rintro rfl
  cases h

theorem endsWithSlash_root : endsWithSlash root = true := by decide

theorem root_eq : root = [slash] := by decide

theorem eq_root_of_length_le {d : Bytes} (h : endsWithSlash d = true)
    (hl : d.length ≤ root.length) : d = root := by
  rw [root_eq] at hl ⊢
  match d, hl with
  | [], _ => cases h
  | [b], _ => simpa [endsWithSlash] using h

theorem removeEndpointFromPath_eq (e p : Bytes) : removeEndpointFromPath e p = removed e p := by
  unfold removeEndpointFromPath removed
  split_ifs with _ h
  · rfl
  · exact (List.drop_eq_nil_of_le h).symm
  · rfl

theorem removed_eq_nil {e p : Bytes} (hp : e <+: p) (h : removed e p = []) : e = p := by
  unfold removed at h
  split_ifs at h with he
  · rw [h] at hp ⊢
    exact List.prefix_nil.mp hp
  · exact hp.eq_of_length_le (by simpa using h)

theorem removed_self_of_ne_root {p : Bytes} (h : p ≠ root) : removed p p = [] := by
  simp only [removed, h, if_false, List.drop_length]

theorem beginsWithPath_self (p : Bytes) : beginsWithPath p p = true :=
  (Registry.beginsWithPath_iff p p).mpr ⟨List.prefix_refl p, id⟩

theorem beginsWithPath_of_le {e p : Bytes} (hp : e <+: p) (he : e ≠ []) :
    beginsWithPath p e = true :=
  (Registry.beginsWithPath_iff p e).mpr ⟨hp, fun h => absurd h he⟩

theorem Matches.beginsWithPath {d p : Bytes} (h : Matches d p) (hd : d ≠ root) :
    beginsWithPath p d = true := by
  rcases h with rfl | ⟨hs, hp⟩ | h
  · exact beginsWithPath_self d
  · exact beginsWithPath_of_le hp (endsWithSlash_ne_nil hs)
  · exact absurd h hd

theorem servingEndpoint_of_findEndpoint {r : Registry φ} {m : Method} {p e : Bytes}
    (h : r.findEndpoint m p = some e) : servingEndpoint r m p =
      if removed e p = [] ∨ endsWithSlash e = true then some (e, removed e p) else none := by
  simp only [servingEndpoint, h, removeEndpointFromPath_eq, Bool.or_eq_true, List.isEmpty_iff]

theorem found_most_specific {r : Registry φ} {m : Method} {p e : Bytes}
    (h : find (r.methods m) p = some e) (hs : removed e p = [] ∨ endsWithSlash e = true) :
    Matches e p ∧ ∀ d, r.contains m d = true → Matches d p → AtLeastAsSpecific p e d := by
  obtain ⟨-, hb, hlongest⟩ := Registry.find_eq_some h
  have hp := ((Registry.beginsWithPath_iff p e).mp hb).1
  by_cases he : e = p
  · exact ⟨.inl he, fun _ _ _ => .inl he⟩
  · have hslash : endsWithSlash e = true := hs.resolve_left fun h => he (removed_eq_nil hp h)
    refine ⟨.inr (.inl ⟨hslash, hp⟩), fun d hd hm => .inr ⟨?_, ?_⟩⟩
    · rintro rfl
      exact he (hp.eq_of_length_le (hlongest d hd (beginsWithPath_self d)))
    · by_cases hroot : d = root
      · exact .inl hroot
      · have hlen := hlongest d hd (hm.beginsWithPath hroot)
        refine .inr ⟨?_, hlen⟩
        rintro rfl
        rcases hm with rfl | ⟨hds, -⟩ | h
        · exact he (hp.eq_of_length_le hlen)
        · exact hroot (eq_root_of_length_le hds hlen)
        · exact hroot h

theorem only_root_matches {r : Registry φ} {m : Method} {p : Bytes}
    (h : find (r.methods m) p = none) {d : Bytes} (hd : r.contains m d = true)
    (hm : Matches d p) : d = root ∧ d ≠ p := by
  have hno := Registry.find_eq_none h hd
  constructor
  · by_contra hroot
    rw [hm.beginsWithPath hroot] at hno
    cases hno
  · rintro rfl
    rw [beginsWithPath_self] at hno
    cases hno

theorem servingEndpoint_some {r : Registry φ} {m : Method} {p e rest : Bytes}
    (h : servingEndpoint r m p = some (e, rest)) :
    r.contains m e = true ∧ rest = removed e p ∧ Matches e p ∧
      ∀ d, r.contains m d = true → Matches d p → AtLeastAsSpecific p e d := by
  cases hf : find (r.methods m) p with
  | some x =>
    rw [servingEndpoint_of_findEndpoint (findEndpoint_of_find hf)] at h
    split_ifs at h with hs
    obtain ⟨rfl, rfl⟩ := Prod.mk.inj (Option.some.inj h)
    exact ⟨(Registry.find_eq_some hf).1, rfl, found_most_specific hf hs⟩
  | none =>
    have hfe := findEndpoint_of_find_none hf
    split_ifs at hfe with hroot
    · rw [servingEndpoint_of_findEndpoint hfe, if_pos (.inr endsWithSlash_root)] at h
      obtain ⟨rfl, rfl⟩ := Prod.mk.inj (Option.some.inj h)
      refine ⟨hroot, rfl, .inr (.inr rfl), fun d hd hm => ?_⟩
      obtain ⟨hdr, hdp⟩ := only_root_matches hf hd hm
      exact .inr ⟨hdp, .inl hdr⟩
    · simp [servingEndpoint, hfe] at h

theorem not_shadowed_of_serving {r : Registry φ} {m : Method} {p e rest : Bytes}
    (h : servingEndpoint r m p = some (e, rest)) : ¬ Shadowed r m p := by
  rintro ⟨d, hd, hne, hdp, hdne, hslash, hlongest, -⟩
  have hb := beginsWithPath_of_le hdp hne
  cases hf : find (r.methods m) p with
  | none =>
    rw [Registry.find_eq_none hf hd] at hb
    cases hb
  | some x =>
    obtain ⟨hx, hxb, hxlong⟩ := Registry.find_eq_some hf
    have hxp := ((Registry.beginsWithPath_iff p x).mp hxb).1
    -- both are the longest registered prefix
    obtain rfl : x = d :=
      (List.prefix_of_prefix_length_le hxp hdp (hlongest x hx hxp)).eq_of_length_le
        (hxlong d hd hb)
    rw [servingEndpoint_of_findEndpoint (findEndpoint_of_find hf), if_neg] at h
    · cases h
    · rintro (hnil | hs)
      · exact hdne (removed_eq_nil hxp hnil)
      · rw [hslash] at hs
        cases hs

theorem servingEndpoint_none {r : Registry φ} {m : Method} {p : Bytes}
    (h : servingEndpoint r m p = none) :
    (∀ d, r.contains m d = true → ¬ Matches d p) ↔ ¬ Shadowed r m p := by
  constructor
  · rintro hnone ⟨_, _, _, _, _, _, _, d, hd, hm⟩
    exact hnone d hd hm
  · intro hshadow d hd hm
    cases hf : find (r.methods m) p with
    | none =>
      obtain ⟨rfl, -⟩ := only_root_matches hf hd hm
      have hfe := findEndpoint_of_find_none hf
      rw [if_pos hd] at hfe
      rw [servingEndpoint_of_findEndpoint hfe, if_pos (.inr endsWithSlash_root)] at h
      cases h
    | some e =>
      obtain ⟨he, heb, hlongest⟩ := Registry.find_eq_some hf
      obtain ⟨hep, hnil⟩ := (Registry.beginsWithPath_iff p e).mp heb
      rw [servingEndpoint_of_findEndpoint (findEndpoint_of_find hf)] at h
      split_ifs at h with hs
      obtain ⟨hrest, hslash⟩ := not_or.mp hs
      have hne : e ≠ p := by
        rintro rfl
        by_cases hroot : e = root
        · exact hslash (hroot ▸ endsWithSlash_root)
        · exact hrest (removed_self_of_ne_root hroot)
      refine hshadow ⟨e, he, fun h => hne ?_, hep, hne, by simpa using hslash, ?_, d, hd, hm⟩
      · rw [h, hnil h]
      · intro x hx hxp
        by_cases hxn : x = []
        · simp only [hxn, List.length_nil, Nat.zero_le]
        · exact hlongest x hx (beginsWithPath_of_le hxp hxn)

/-- The ways in which a response comes about, or none. -/
theorem generateResponse_cases (registry : Registry φ) (filter : Option Filter)
    (request : Request) :
    (request.method = some .get ∧ request.getPathWithoutLeadingSlash = ascii "registry" ∧
      ∃ e, generateResponse registry filter request = .error e) ∨
    (∃ response, generateResponse registry filter request = .ok (.ready response)) ∨
    (∃ (m : Method) (endpoint rest : Bytes) (func : RESTFunc φ), request.method = some m ∧
      servingEndpoint registry m request.getPathWithoutLeadingSlash = some (endpoint, rest) ∧
      ¬ (request.method = some .get ∧ request.getPathWithoutLeadingSlash = ascii "registry") ∧
      generateResponse registry filter request =
        .ok (.called endpoint { request with path := rest } (func { request with path := rest }))) ∨
    request.method = none ∧ (filter.filter fun f => f.filter request) = none ∧
      generateResponse registry filter request = .ok .undefined := by
  unfold generateResponse
  cases hfilter : filter.filter fun f => f.filter request with
  | some f => exact .inr (.inl ⟨_, rfl⟩)
  | none =>
    dsimp only
    by_cases hregistry : request.method = some .get ∧
        request.getPathWithoutLeadingSlash = ascii "registry"
    · rw [if_pos hregistry]
      cases registry.toJson.dump with
      | error e => exact .inl ⟨hregistry.1, hregistry.2, e, rfl⟩
      | ok body => exact .inr (.inl ⟨_, rfl⟩)
    · rw [if_neg hregistry]
      cases hm : request.method with
      | none => exact .inr (.inr (.inr ⟨rfl, rfl, rfl⟩))
      | some m =>
        dsimp only
        cases hs : servingEndpoint registry m request.getPathWithoutLeadingSlash with
        | none =>
          dsimp only
          split_ifs
          · exact .inr (.inl ⟨_, rfl⟩)
          · exact .inr (.inl ⟨_, rfl⟩)
        | some served =>
          obtain ⟨endpoint, rest⟩ := served
          obtain ⟨func, hfunc⟩ := Registry.getFunction_isSome (servingEndpoint_some hs).1
          simp only [hfunc]
          exact .inr (.inr (.inl ⟨m, endpoint, rest, func, rfl, hs, hm ▸ hregistry, rfl⟩))

/-- A request with a method of the registry that is neither filtered nor asks for the registry
is routed to the most specific match exactly if no registered endpoint shadows the matches. -/
theorem routed_iff_not_shadowed (r : Registry φ) (filter : Option Filter) (m : Method)
    (request : Request) (hmethod : request.method = some m)
    (hfilter : ∀ f, filter = some f → f.filter request = false)
    (hregistry : ¬ (m = .get ∧ request.getPathWithoutLeadingSlash = ascii "registry")) :
    RoutedToMostSpecific r m request (generateResponse r filter request) ↔
      ¬ Shadowed r m request.getPathWithoutLeadingSlash := by
  have hno : filter.filter (fun f => f.filter request) = none := by
    cases filter with
    | none => rfl
    | some f => simp [hfilter f rfl]
  unfold generateResponse
  simp only [hno, hmethod, Option.some.injEq, hregistry, if_false]
  cases hs : servingEndpoint r m request.getPathWithoutLeadingSlash with
  | none =>
    rw [← servingEndpoint_none hs]
    dsimp only
    split_ifs <;> rfl
  | some served =>
    obtain ⟨e, rest⟩ := served
    obtain ⟨he, rfl, hm, hbest⟩ := servingEndpoint_some hs
    obtain ⟨func, hfunc⟩ := Registry.getFunction_isSome he
    simp only [hfunc]
    exact iff_of_true ⟨⟨func, hfunc, rfl⟩, by rw [hmethod], hm, hbest⟩ (not_shadowed_of_serving hs)

/-- A slash endpoint and an exact one that does not stand in its way. -/
def sampleRegistry : Registry ℕ :=
  ((({} : Registry ℕ).add .get (ascii "api/") fun _ => 1).2.add .get (ascii "bin") fun _ => 2).2

theorem routed_iff_not_shadowed_sample :
    RoutedToMostSpecific sampleRegistry .get
      ⟨some .get, ascii "/api/objects", [], [], [], []⟩
      (generateResponse sampleRegistry none ⟨some .get, ascii "/api/objects", [], [], [], []⟩) ↔
    ¬ Shadowed sampleRegistry .get (ascii "api/objects") :=
  routed_iff_not_shadowed sampleRegistry none .get
    ⟨some .get, ascii "/api/objects", [], [], [], []⟩ rfl (fun _ h => by cases h) (by decide)

/-- The endpoint `foo` keeps `/` from taking the path `foobar`. -/
theorem root_shadowed :
    ¬ ∀ (r : Registry ℕ) (filter : Option Filter) (m : Method) (request : Request),
      request.method = some m → (∀ f, filter = some f → f.filter request = false) →
      ¬ (m = .get ∧ request.getPathWithoutLeadingSlash = ascii "registry") →
      RoutedToMostSpecific r m request (generateResponse r filter request) := by
  intro hall
  have h := hall
    ((({} : Registry ℕ).add .get (ascii "/") fun _ => 1).2.add .get (ascii "foo") fun _ => 2).2
    none .get ⟨some .get, ascii "/foobar", [], [], [], []⟩ rfl (fun _ h => by cases h) (by decide)
  exact h root (by decide) (.inr (.inr rfl))

end Rockets.Http.ConnectionHandler
