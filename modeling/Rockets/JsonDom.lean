import Rockets.JsonParser

set_option autoImplicit false

/-!
# The handler that builds a value

References into the value under construction are places in it. The events of a value build
that value, with the members of its objects by key.
-/
namespace Rockets
open Parsing

/-- One step from a value into an element or a member of it. -/
inductive Step where
  | index (i : ℕ)
  | member (k : Bytes)
  deriving DecidableEq

/-- What a pointer into a value designates. -/
abbrev Place := List Step

namespace Json

def get? : Place → Json → Option Json
  | [], j => some j
  | .index i :: place, .array js => js[i]?.bind (get? place)
  | .member k :: place, .object ms => (Entries.find? k ms).bind (get? place)
  | _ :: _, _ => none

def assign (v : Json) : Place → Json → Json
  | [], _ => v
  | .index i :: place, .array js => .array (js.modify i (assign v place))
  | .member k :: place, .object ms =>
    .object (Entries.set k (assign v place ((Entries.find? k ms).getD .null)) ms)
  | _ :: _, j => j

variable {j v w x : Json} {place place' : Place}

theorem get?_append (h : j.get? place = some x) : j.get? (place ++ place') = x.get? place' := by
  induction place generalizing j with
  | nil =>
    cases h
    rfl
  | cons s place ih =>
    cases s with
    | index i =>
      cases j with
      | array js =>
        obtain ⟨y, hy, hx⟩ := Option.bind_eq_some_iff.mp h
        simp only [List.cons_append, get?, hy, Option.bind_some, ih hx]
      | _ => cases h
    | member k =>
      cases j with
      | object ms =>
        obtain ⟨y, hy, hx⟩ := Option.bind_eq_some_iff.mp h
        simp only [List.cons_append, get?, hy, Option.bind_some, ih hx]
      | _ => cases h

theorem assign_append (h : j.get? place = some x) :
    assign v (place ++ place') j = assign (assign v place' x) place j := by
  induction place generalizing j with
  | nil =>
    cases h
    rfl
  | cons s place ih =>
    cases s with
    | index i =>
      cases j with
      | array js =>
        obtain ⟨y, hy, hx⟩ := Option.bind_eq_some_iff.mp h
        simp only [List.cons_append, assign]
        congr 1
        refine List.ext_getElem? fun n => ?_
        rw [List.getElem?_modify, List.getElem?_modify]
        split_ifs with hn
        · subst hn
          simp only [hy, Option.map_eq_map, Option.map_some, ih hx]
        · rfl
      | _ => cases h
    | member k =>
      cases j with
      | object ms =>
        obtain ⟨y, hy, hx⟩ := Option.bind_eq_some_iff.mp h
        simp only [List.cons_append, assign, hy, Option.getD_some, ih hx]
      | _ => cases h

theorem set_set (k : Bytes) (ms : List (Bytes × Json)) :
    Entries.set k w (Entries.set k v ms) = Entries.set k w ms := by
  induction ms with
  | nil => simp [Entries.set]
  | cons m ms ih =>
    simp only [Entries.set]
    split_ifs with hlt heq
    · simp [Entries.set]
    · simp [Entries.set]
    · simp [Entries.set, hlt, heq, ih]

end Json

/-- The value so far, the open arrays and objects, the innermost first, and the member whose key
came last. -/
structure Dom where
  root : Json
  refStack : List Place
  objectElement : Option Place

mutual

def events : Json → List Event
  | .null => [.null]
  | .boolean b => [.boolean b]
  | .numberInteger n => [.numberInteger n]
  | .numberUnsigned n => [.numberUnsigned n]
  | .numberFloat bits => [.numberFloat bits]
  | .string s => [.string s]
  | .array js => .startArray :: (eventsElements js ++ [.endArray])
  | .object ms => .startObject :: (eventsMembers ms ++ [.endObject])

def eventsElements : List Json → List Event
  | [] => []
  | j :: js => events j ++ eventsElements js

def eventsMembers : List (Bytes × Json) → List Event
  | [] => []
  | (k, j) :: ms => .key k :: (events j ++ eventsMembers ms)

end

def tell {τ : Type} (on : Event → τ → τ) (es : List Event) (sax : τ) : τ :=
  es.foldl (fun sax e => on e sax) sax

theorem tell_cons {τ : Type} {on : Event → τ → τ} {sax : τ} (e : Event) (es : List Event) :
    tell on (e :: es) sax = tell on es (on e sax) := rfl

theorem tell_append {τ : Type} {on : Event → τ → τ} {sax : τ} (es fs : List Event) :
    tell on (es ++ fs) sax = tell on fs (tell on es sax) := List.foldl_append

theorem tell_snoc {τ : Type} (on : Event → τ → τ) {sax : τ} (es : List Event) (e : Event) :
    tell on (es ++ [e]) sax = on e (tell on es sax) := tell_append es [e]

namespace Dom
open Json

def ofRoot (root : Json) : Dom := ⟨root, [], none⟩

/-- Where the value is put, and the value with it. -/
def handleValue (v : Json) (d : Dom) : Place × Dom :=
  match d.refStack with
  | [] => ([], { d with root := v })
  | place :: _ =>
    match d.root.get? place with
    | some (.array js) =>
      (place ++ [.index js.length], { d with root := assign (.array (js ++ [v])) place d.root })
    | _ =>
      match d.objectElement with
      | some place => (place, { d with root := assign v place d.root })
      | none => ([], d)

def start (v : Json) (d : Dom) : Dom :=
  let (place, d) := d.handleValue v
  { d with refStack := place :: d.refStack }

/-- The subscript operator adds a null at a new key. -/
def subscript (k : Bytes) (ms : List (Bytes × Json)) : List (Bytes × Json) :=
  if (Entries.find? k ms).isSome then ms else Entries.set k .null ms

def key (k : Bytes) (d : Dom) : Dom :=
  match d.refStack with
  | [] => d
  | place :: _ =>
    match d.root.get? place with
    | some (.object ms) => { d with
        root := assign (.object (subscript k ms)) place d.root
        objectElement := some (place ++ [.member k]) }
    | _ => d

def on : Event → Dom → Dom
  | .null, d => (d.handleValue .null).2
  | .boolean b, d => (d.handleValue (.boolean b)).2
  | .numberInteger n, d => (d.handleValue (.numberInteger n)).2
  | .numberUnsigned n, d => (d.handleValue (.numberUnsigned n)).2
  | .numberFloat bits, d => (d.handleValue (.numberFloat bits)).2
  | .string s, d => (d.handleValue (.string s)).2
  | .startObject, d => d.start (.object [])
  | .key k, d => d.key k
  | .endObject, d => { d with refStack := d.refStack.tail }
  | .startArray, d => d.start (.array [])
  | .endArray, d => { d with refStack := d.refStack.tail }

section Places
variable {d : Dom} {place : Place} {fill : Json → Json} {v : Json}

/-- The next value is put at a place that does not depend on it. -/
structure Slot (d : Dom) (place : Place) (fill : Json → Json) : Prop where
  handle : ∀ v, d.handleValue v = (place, { d with root := fill v })
  get : ∀ v, (fill v).get? place = some v
  assign : ∀ v w, assign w place (fill v) = fill w

theorem slot_root (root : Json) : Slot (ofRoot root) [] id where
  handle _ := rfl
  get _ := rfl
  assign _ _ := rfl

variable {refStack : List Place} {element : Option Place} {es : List Json}
  {ms : List (Bytes × Json)} {k : Bytes}

theorem modify_length (f : Json → Json) (v : Json) :
    (es ++ [v]).modify es.length f = es ++ [f v] := by
  induction es with
  | nil => rfl
  | cons e es ih => simp [ih]

theorem slot_element (refStack : List Place) (element : Option Place) (es : List Json)
    (h : Slot d place fill) :
    Slot ⟨fill (.array es), place :: refStack, element⟩ (place ++ [.index es.length])
      fun v => fill (.array (es ++ [v])) where
  handle v := by simp only [handleValue, h.get, h.assign]
  get v := by
    rw [get?_append (h.get _)]
    simp [get?]
  assign v w := by
    rw [assign_append (h.get _), h.assign]
    rw [Json.assign, modify_length]
    rfl

theorem set_subscript (v : Json) : Entries.set k v (subscript k ms) = Entries.set k v ms := by
  unfold subscript
  split_ifs
  · rfl
  · exact set_set k ms

theorem slot_member (refStack : List Place) (ms : List (Bytes × Json)) (k : Bytes)
    (h : Slot d place fill) :
    Slot ⟨fill (.object (subscript k ms)), place :: refStack, some (place ++ [.member k])⟩
      (place ++ [.member k]) fun v => fill (.object (Entries.set k v ms)) where
  handle v := by
    simp only [handleValue, h.get, assign_append (h.get _), h.assign, Json.assign,
      set_subscript]
  get v := by
    rw [get?_append (h.get _)]
    simp [get?, Entries.find?_set]
  assign v w := by
    rw [assign_append (h.get _), h.assign]
    simp only [Json.assign, set_set]

/-- A handler told the events of a value puts it where it puts the next value. -/
def Builds (j j' : Json) : Prop := ∀ d place fill, Slot d place fill →
  ∃ element, tell on (events j) d = ⟨fill j', d.refStack, element⟩

theorem start_of_slot (h : Slot d place fill) (v : Json) :
    d.start v = ⟨fill v, place :: d.refStack, d.objectElement⟩ := by
  rw [start, h.handle]

theorem on_key (h : Slot d place fill) :
    on (.key k) ⟨fill (.object ms), place :: refStack, element⟩ =
      ⟨fill (.object (subscript k ms)), place :: refStack, some (place ++ [.member k])⟩ := by
  simp only [on, key, h.get, h.assign]

end Places

mutual

theorem builds : (j : Json) → Builds j (Grammar.collapse j)
  | .null | .boolean _ | .numberInteger _ | .numberUnsigned _ | .numberFloat _ | .string _ =>
    fun d _ _ h => ⟨d.objectElement, congrArg Prod.snd (h.handle _)⟩
  | .array js => fun d place fill h => by
    obtain ⟨element, hes⟩ := buildsElements js h d.refStack d.objectElement []
    refine ⟨element, ?_⟩
    rw [events, tell_cons, show on .startArray d = _ from start_of_slot h _, tell_append, hes]
    rfl
  | .object ms => fun d place fill h => by
    obtain ⟨element, hms⟩ := buildsMembers ms h d.refStack d.objectElement []
    refine ⟨element, ?_⟩
    rw [events, tell_cons, show on .startObject d = _ from start_of_slot h _, tell_append, hms]
    rfl

theorem buildsElements : (js : List Json) → ∀ {d place fill}, Slot d place fill →
    ∀ refStack element es, ∃ element', tell on (eventsElements js)
      ⟨fill (.array es), place :: refStack, element⟩ =
        ⟨fill (.array (es ++ Grammar.collapseElements js)), place :: refStack, element'⟩
  | [] => fun _ _ element es => ⟨element, by simp [eventsElements, tell, Grammar.collapseElements]⟩
  | j :: js => fun h refStack element es => by
    obtain ⟨element1, hj⟩ := builds j _ _ _ (slot_element refStack element es h)
    obtain ⟨element2, hjs⟩ := buildsElements js h refStack element1
      (es ++ [Grammar.collapse j])
    refine ⟨element2, ?_⟩
    rw [eventsElements, tell_append, hj, hjs, Grammar.collapseElements, List.append_assoc,
      List.singleton_append]

theorem buildsMembers : (ms : List (Bytes × Json)) → ∀ {d place fill}, Slot d place fill →
    ∀ refStack element es, ∃ element', tell on (eventsMembers ms)
      ⟨fill (.object es), place :: refStack, element⟩ =
        ⟨fill (.object ((Grammar.collapseMembers ms).foldl
          (fun es m => Entries.set m.1 m.2 es) es)), place :: refStack, element'⟩
  | [] => fun _ _ element es => ⟨element, by simp [eventsMembers, tell, Grammar.collapseMembers]⟩
  | (k, j) :: ms => fun h refStack element es => by
    obtain ⟨element1, hj⟩ := builds j _ _ _ (slot_member refStack es k h)
    obtain ⟨element2, hms⟩ := buildsMembers ms h refStack element1
      (Entries.set k (Grammar.collapse j) es)
    refine ⟨element2, ?_⟩
    rw [eventsMembers, tell_cons, on_key h, tell_append, hj, hms, Grammar.collapseMembers,
      List.foldl_cons]

end

theorem root_tell_events (root j : Json) :
    (tell on (events j) (ofRoot root)).root = Grammar.collapse j := by
  obtain ⟨element, h⟩ := builds j _ _ _ (slot_root root)
  rw [h]
  rfl

end Dom

def Json.parse (strtod : Strtod) (text : Bytes) : Except Failure Json :=
  match Parser.saxParse strtod Dom.on (.ofInput strtod text (.ofRoot .null)) with
  | .error f => .error f
  | .ok p => .ok p.sax.root

end Rockets
