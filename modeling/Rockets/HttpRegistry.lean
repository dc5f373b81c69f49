import Rockets.HttpTypes
import Rockets.LongestPrefix

set_option autoImplicit false

/-!
# The registry of HTTP endpoints

One map per method, iterated from the greatest endpoint down. Of two prefixes of a
path the longer one is the greater, so the first registered prefix that the iteration
meets is the longest.
-/
namespace Rockets.Http

/-- `std::map` with `std::greater`: the keys are compared the other way round. -/
abbrev FuncMap (φ : Type) := OrderedMap Bytesᵒᵈ (RESTFunc φ)

structure Registry (φ : Type) where
  methods : Method → FuncMap φ := fun _ => ∅

namespace Registry
variable {φ : Type}

def contains (r : Registry φ) (m : Method) (endpoint : Bytes) : Bool :=
  (r.methods m).contains (OrderDual.toDual endpoint)

def getFunction (r : Registry φ) (m : Method) (endpoint : Bytes) : Option (RESTFunc φ) :=
  (r.methods m).find? (OrderDual.toDual endpoint)

def add (r : Registry φ) (m : Method) (endpoint : Bytes) (func : RESTFunc φ) :
    Bool × Registry φ :=
  if r.contains m endpoint then (false, r)
  else
    let funcMap := (r.methods m).set (OrderDual.toDual endpoint) func
    (true, ⟨Function.update r.methods m funcMap⟩)

def remove (r : Registry φ) (endpoint : Bytes) : Bool × Registry φ :=
  (Method.all.any fun m => r.contains m endpoint,
    ⟨fun m => (r.methods m).erase (OrderDual.toDual endpoint)⟩)

def getAllowedMethods (r : Registry φ) (endpoint : Bytes) : Bytes :=
  List.intercalate (ascii ", ")
    ((Method.all.filter fun m => r.contains m endpoint).map Method.name)

/-- `beginsWithPath`. -/
def beginsWithPath (path endpoint : Bytes) : Bool :=
  if endpoint.isEmpty then path.isEmpty else endpoint.isPrefixOf path

/-- `_find`: the first entry, in iteration order, the path begins with. -/
def find (funcMap : FuncMap φ) (path : Bytes) : Option Bytes :=
  (funcMap.entries.find? fun e => beginsWithPath path (OrderDual.ofDual e.1)).map
    fun e => OrderDual.ofDual e.1

def root : Bytes := ascii "/"

def findEndpoint (r : Registry φ) (m : Method) (path : Bytes) : Option Bytes :=
  match find (r.methods m) path with
  | some endpoint => some endpoint
  | none => if r.contains m root then some root else none

/-- `_append`: one more method name at a key of the body. -/
def append (name : Bytes) (body : List (Bytes × Json)) (endpoint : Bytes) :
    List (Bytes × Json) :=
  match Entries.find? endpoint body with
  | some (.array names) => Entries.set endpoint (.array (names ++ [.string name])) body
  | _ => Entries.set endpoint (.array [.string name]) body

def toJson (r : Registry φ) : Json :=
  match Method.all.foldl (fun body m =>
      ((r.methods m).keys.map OrderDual.ofDual).foldl (append m.name) body) [] with
  | [] => .null
  | body => .object body

/-! ### What the lookup finds -/

theorem beginsWithPath_iff (path endpoint : Bytes) :
    beginsWithPath path endpoint = true ↔
      endpoint <+: path ∧ (endpoint = [] → path = []) := by
  unfold beginsWithPath
  cases endpoint with
  | nil => cases path <;> simp
  | cons b bs => simp [List.isPrefixOf_iff_prefix]

/-- `std::string::find`: where the searched string first occurs. -/
def position? (searched : Bytes) : Bytes → Option ℕ
  | [] => if searched.isEmpty then some 0 else none
  | b :: s =>
    if searched.isPrefixOf (b :: s) then some 0 else (position? searched s).map (· + 1)

theorem position?_eq_zero {searched s : Bytes} :
    position? searched s = some 0 ↔ searched <+: s := by
  cases s with
  | nil => simp [position?]
  | cons b s =>
    rw [position?, ← List.isPrefixOf_iff_prefix]
    split_ifs with h <;> simp [h]

/-- The comparison as the source writes it: the endpoint is found at the start of the path. -/
theorem beginsWithPath_eq_position? (path endpoint : Bytes) : beginsWithPath path endpoint =
    if endpoint.isEmpty then path.isEmpty else position? endpoint path == some 0 := by
  unfold beginsWithPath
  congr 1
  rw [Bool.eq_iff_iff, beq_iff_eq, position?_eq_zero, List.isPrefixOf_iff_prefix]

/-- The registered endpoints that are prefixes of a path, of which the empty one only counts
for the empty path. -/
def Candidates (r : Registry φ) (m : Method) (path : Bytes) : Set Bytes :=
  {e | r.contains m e = true ∧ e <+: path ∧ (e = [] → path = [])}

section Find
variable {r : Registry φ} {m : Method} {path e : Bytes}

theorem mem_candidates :
    e ∈ r.Candidates m path ↔ r.contains m e = true ∧ beginsWithPath path e = true := by
  rw [beginsWithPath_iff]
  exact Iff.rfl

/-- The endpoints are passed in descending order. -/
theorem find_eq_some_iff_isGreatest :
    find (r.methods m) path = some e ↔ IsGreatest (r.Candidates m path) e := by
  have hset : r.Candidates m path =
      {e | r.contains m e = true ∧ beginsWithPath path e = true} :=
    Set.ext fun _ => mem_candidates
  rw [hset]
  exact OrderedMap.entries_find?_eq_some (m := r.methods m)
    (p := fun e => beginsWithPath path (OrderDual.ofDual e)) (k := OrderDual.toDual e)

theorem find_eq_some_iff_isLongest :
    find (r.methods m) path = some e ↔ IsLongest (r.Candidates m path) e := by
  rw [find_eq_some_iff_isGreatest]
  exact (isLongest_iff_isGreatest fun _ hd => hd.2.1).symm

theorem find_eq_none_iff : find (r.methods m) path = none ↔ r.Candidates m path = ∅ := by
  have hnone : find (r.methods m) path = none ↔
      ∀ e, r.contains m e = true → beginsWithPath path e = false :=
    Option.map_eq_none_iff.trans (OrderedMap.entries_find?_eq_none (m := r.methods m)
      (p := fun e => beginsWithPath path (OrderDual.ofDual e)))
  rw [hnone, Set.eq_empty_iff_forall_notMem]
  refine forall_congr' fun e => ?_
  rw [mem_candidates, not_and, Bool.not_eq_true]

theorem find_eq_some (h : find (r.methods m) path = some e) :
    r.contains m e = true ∧ beginsWithPath path e = true ∧
      ∀ d, r.contains m d = true → beginsWithPath path d = true → d.length ≤ e.length := by
  obtain ⟨he, hlongest⟩ := find_eq_some_iff_isLongest.mp h
  obtain ⟨hcontains, hbegins⟩ := mem_candidates.mp he
  exact ⟨hcontains, hbegins, fun d hd hpd => hlongest d (mem_candidates.mpr ⟨hd, hpd⟩)⟩

theorem find_eq_none (h : find (r.methods m) path = none) {d : Bytes}
    (hd : r.contains m d = true) : beginsWithPath path d = false := by
  by_contra hpd
  have hmem : d ∈ r.Candidates m path := mem_candidates.mpr ⟨hd, by simpa using hpd⟩
  rw [find_eq_none_iff.mp h] at hmem
  exact hmem

theorem findEndpoint_of_find (h : find (r.methods m) path = some e) :
    r.findEndpoint m path = some e := by
  simp only [findEndpoint, h]

theorem findEndpoint_of_find_none (h : find (r.methods m) path = none) :
    r.findEndpoint m path = if r.contains m root then some root else none := by
  simp only [findEndpoint, h]

end Find

/-- What the iteration meets first is the longest candidate. It is what is found for the path, and
`/` is found for a path without any. -/
structure FindsLongest (r : Registry φ) (m : Method) (path : Bytes) : Prop where
  first : ∀ e, find (r.methods m) path = some e ↔ IsGreatest (r.Candidates m path) e
  longest : ∀ e, find (r.methods m) path = some e ↔ IsLongest (r.Candidates m path) e
  last : find (r.methods m) path = none ↔ r.Candidates m path = ∅
  found : ∀ e, r.findEndpoint m path = some e ↔ IsLongest (r.Candidates m path) e ∨
    r.Candidates m path = ∅ ∧ e = root ∧ r.contains m root = true
  notFound : r.findEndpoint m path = none ↔
    r.Candidates m path = ∅ ∧ r.contains m root = false

/-- The order of the registry is the order of how specific the candidates are. -/
theorem finds_longest (r : Registry φ) (m : Method) (path : Bytes) : FindsLongest r m path := by
  refine ⟨fun _ => find_eq_some_iff_isGreatest, fun _ => find_eq_some_iff_isLongest,
    find_eq_none_iff, fun e => ?_, ?_⟩
  · rw [← find_eq_some_iff_isLongest, ← find_eq_none_iff]
    cases h : find (r.methods m) path with
    | some d => simp [findEndpoint_of_find h]
    | none =>
      rw [findEndpoint_of_find_none h]
      cases r.contains m root <;> simp [eq_comm]
  · rw [← find_eq_none_iff]
    cases h : find (r.methods m) path with
    | some d => simp [findEndpoint_of_find h]
    | none =>
      rw [findEndpoint_of_find_none h]
      cases r.contains m root <;> simp

theorem getFunction_isSome {r : Registry φ} {m : Method} {endpoint : Bytes}
    (h : r.contains m endpoint = true) : ∃ func, r.getFunction m endpoint = some func :=
  Option.isSome_iff_exists.mp h

end Registry
end Rockets.Http
