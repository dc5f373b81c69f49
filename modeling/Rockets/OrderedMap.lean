import Mathlib

set_option autoImplicit false

/-!
# Ordered maps

Finite maps kept as a list of entries in strictly increasing key order, which is
also the order of iteration. A decreasing comparator is the order dual of the keys.
-/
namespace Rockets

namespace Entries
variable {κ α : Type*} [LinearOrder κ]

def find? (k : κ) : List (κ × α) → Option α
  | [] => none
  | (j, a) :: es => if j = k then some a else find? k es

def mapValues (f : κ → α → α) : List (κ × α) → List (κ × α)
  | [] => []
  | (j, a) :: es => (j, f j a) :: mapValues f es

/-- Insert at the place of the key, replacing what was there. -/
def set (k : κ) (a : α) : List (κ × α) → List (κ × α)
  | [] => [(k, a)]
  | (j, b) :: es =>
    if k < j then (k, a) :: (j, b) :: es
    else if j = k then (k, a) :: es
    else (j, b) :: set k a es

def erase (k : κ) : List (κ × α) → List (κ × α)
  | [] => []
  | (j, b) :: es => if j = k then es else (j, b) :: erase k es

def Sorted (es : List (κ × α)) : Prop := es.Pairwise (fun x y => x.1 < y.1)

theorem mem_set {k : κ} {a : α} {e : κ × α} {es : List (κ × α)} (h : e ∈ set k a es) :
    e = (k, a) ∨ e ∈ es := by
  induction es with
  | nil => simpa [set] using h
  | cons x es ih =>
    simp only [set] at h
    split_ifs at h <;> grind

theorem mem_of_mem_erase {k : κ} {e : κ × α} {es : List (κ × α)} (h : e ∈ erase k es) :
    e ∈ es := by
  induction es with
  | nil => exact h
  | cons x es ih =>
    simp only [erase] at h
    split_ifs at h <;> grind

theorem Sorted.set {k : κ} {a : α} {es : List (κ × α)} (h : Sorted es) :
    Sorted (Entries.set k a es) := by
  induction es with
  | nil => exact List.pairwise_singleton _ _
  | cons x es ih =>
    obtain ⟨hx, hes⟩ := List.pairwise_cons.mp h
    simp only [Entries.set]
    split_ifs with hlt heq
    · refine List.pairwise_cons.mpr ⟨fun y hy => ?_, h⟩
      rcases List.mem_cons.mp hy with rfl | hy
      · exact hlt
      · exact hlt.trans (hx y hy)
    · exact List.pairwise_cons.mpr ⟨fun y hy => heq ▸ hx y hy, hes⟩
    · refine List.pairwise_cons.mpr ⟨fun y hy => ?_, ih hes⟩
      rcases mem_set hy with rfl | hy
      · exact lt_of_le_of_ne (not_lt.mp hlt) heq
      · exact hx y hy

theorem Sorted.erase {k : κ} {es : List (κ × α)} (h : Sorted es) :
    Sorted (Entries.erase k es) := by
  induction es with
  | nil => exact List.Pairwise.nil
  | cons x es ih =>
    obtain ⟨hx, hes⟩ := List.pairwise_cons.mp h
    simp only [Entries.erase]
    split_ifs
    · exact hes
    · exact List.pairwise_cons.mpr ⟨fun y hy => hx y (mem_of_mem_erase hy), ih hes⟩

theorem find?_set (k j : κ) (a : α) (es : List (κ × α)) :
    find? j (set k a es) = if j = k then some a else find? j es := by
  induction es with
  | nil => simp only [set, find?, eq_comm]
  | cons x es ih => simp only [set]; split_ifs <;> grind [find?]

theorem find?_eq_none {k : κ} {es : List (κ × α)} (h : ∀ e ∈ es, e.1 ≠ k) :
    find? k es = none := by
  induction es with
  | nil => rfl
  | cons x es ih => grind [find?]

theorem find?_erase (k j : κ) {es : List (κ × α)} (h : Sorted es) :
    find? j (erase k es) = if j = k then none else find? j es := by
  induction es with
  | nil => simp only [erase, find?, ite_self]
  | cons x es ih =>
    obtain ⟨hx, hes⟩ := List.pairwise_cons.mp h
    simp only [erase, find?]
    split_ifs with h1 h2 h3
    · exact find?_eq_none fun e he => h2 ▸ h1 ▸ (hx e he).ne'
    · exact absurd (h3.symm.trans h1) (by simpa [eq_comm] using h2)
    · rfl
    · rw [find?, if_neg (by grind), ih hes, if_pos (by assumption)]
    · rw [find?, if_pos (by assumption)]
    · rw [find?, if_neg (by assumption), ih hes, if_neg (by assumption)]

omit [LinearOrder κ] in
theorem keys_mapValues (f : κ → α → α) (es : List (κ × α)) :
    (mapValues f es).map Prod.fst = es.map Prod.fst := by
  induction es with
  | nil => rfl
  | cons x es ih => simp only [mapValues, List.map_cons, ih]

theorem Sorted.mapValues {f : κ → α → α} {es : List (κ × α)} (h : Sorted es) :
    Sorted (Entries.mapValues f es) := by
  unfold Sorted at h ⊢
  rw [← List.pairwise_map] at h ⊢
  rwa [keys_mapValues]

theorem find?_mapValues (f : κ → α → α) (k : κ) (es : List (κ × α)) :
    find? k (mapValues f es) = (find? k es).map (f k) := by
  induction es with
  | nil => rfl
  | cons x es ih => simp only [mapValues, find?]; split_ifs with h <;> grind

theorem find?_eq_some {k : κ} {a : α} {es : List (κ × α)} (h : Sorted es) :
    find? k es = some a ↔ (k, a) ∈ es := by
  induction es with
  | nil => simp [find?]
  | cons x es ih =>
    obtain ⟨hx, hes⟩ := List.pairwise_cons.mp h
    simp only [find?, List.mem_cons]
    split_ifs with hk
    · refine ⟨fun he => .inl (by grind), ?_⟩
      rintro (he | he)
      · grind
      · exact absurd hk (hx _ he).ne
    · rw [ih hes]
      grind

end Entries

/-- The standard library's ordered map: its entries are always in key order. -/
structure OrderedMap (κ α : Type*) [LinearOrder κ] where
  entries : List (κ × α)
  sorted : Entries.Sorted entries

namespace OrderedMap
variable {κ α : Type*} [LinearOrder κ]

instance : EmptyCollection (OrderedMap κ α) := ⟨⟨[], .nil⟩⟩
instance : Inhabited (OrderedMap κ α) := ⟨∅⟩

def find? (m : OrderedMap κ α) (k : κ) : Option α := Entries.find? k m.entries

def contains (m : OrderedMap κ α) (k : κ) : Bool := (m.find? k).isSome

/-- Assignment through the subscript operator. -/
def set (m : OrderedMap κ α) (k : κ) (a : α) : OrderedMap κ α :=
  ⟨Entries.set k a m.entries, m.sorted.set⟩

/-- Insertion that leaves an existing entry alone. -/
def emplace (m : OrderedMap κ α) (k : κ) (a : α) : OrderedMap κ α :=
  if m.contains k then m else m.set k a

def erase (m : OrderedMap κ α) (k : κ) : OrderedMap κ α :=
  ⟨Entries.erase k m.entries, m.sorted.erase⟩

/-- Update the values, keys and order unchanged. -/
def mapValues (m : OrderedMap κ α) (f : κ → α → α) : OrderedMap κ α :=
  ⟨Entries.mapValues f m.entries, m.sorted.mapValues⟩

def keys (m : OrderedMap κ α) : List κ := m.entries.map Prod.fst
def values (m : OrderedMap κ α) : List α := m.entries.map Prod.snd

/-- The first entry, where an iteration begins. -/
def begin? (m : OrderedMap κ α) : Option (κ × α) := m.entries.head?

/-- The entry an iterator moves to from the key `k`. -/
def next? (m : OrderedMap κ α) (k : κ) : Option (κ × α) := m.entries.find? fun e => k < e.1

@[simp] theorem find?_empty (k : κ) : (∅ : OrderedMap κ α).find? k = none := rfl

@[simp] theorem find?_set (m : OrderedMap κ α) (k j : κ) (a : α) :
    (m.set k a).find? j = if j = k then some a else m.find? j :=
  Entries.find?_set k j a m.entries

@[simp] theorem find?_erase (m : OrderedMap κ α) (k j : κ) :
    (m.erase k).find? j = if j = k then none else m.find? j :=
  Entries.find?_erase k j m.sorted

theorem find?_emplace (m : OrderedMap κ α) (k j : κ) (a : α) :
    (m.emplace k a).find? j = if j = k then (m.find? k).or (some a) else m.find? j := by
  unfold emplace contains
  cases h : m.find? k with
  | none => simp
  | some b =>
    simp only [Option.isSome_some, if_true, Option.some_or]
    split_ifs with hj
    · exact hj ▸ h
    · rfl

@[simp] theorem find?_mapValues (m : OrderedMap κ α) (f : κ → α → α) (k : κ) :
    (m.mapValues f).find? k = (m.find? k).map (f k) :=
  Entries.find?_mapValues f k m.entries

theorem find?_eq_some {m : OrderedMap κ α} {k : κ} {a : α} :
    m.find? k = some a ↔ (k, a) ∈ m.entries :=
  Entries.find?_eq_some m.sorted

theorem contains_iff {m : OrderedMap κ α} {k : κ} : m.contains k = true ↔ k ∈ m.keys := by
  simp only [contains, Option.isSome_iff_exists, find?_eq_some, keys, List.mem_map,
    Prod.exists, exists_and_right, exists_eq_right]

theorem contains_of_find? {m : OrderedMap κ α} {k : κ} {a : α} (h : m.find? k = some a) :
    m.contains k = true :=
  Option.isSome_iff_exists.mpr ⟨a, h⟩

section Search
variable {m : OrderedMap κ α} {p : κ → Bool}

theorem entries_find?_eq_none :
    (m.entries.find? fun e => p e.1) = none ↔ ∀ k, m.contains k = true → p k = false := by
  rw [List.find?_eq_none]
  constructor
  · intro h k hk
    obtain ⟨a, ha⟩ := Option.isSome_iff_exists.mp hk
    simpa using h _ (find?_eq_some.mp ha)
  · rintro h ⟨k, a⟩ he
    simp [h k (contains_of_find? (find?_eq_some.mpr he))]

/-- A search in the order of iteration stops at the least key that it accepts. -/
theorem isLeast_of_entries_find? {e : κ × α} (h : (m.entries.find? fun e => p e.1) = some e) :
    m.find? e.1 = some e.2 ∧ IsLeast {k | m.contains k = true ∧ p k = true} e.1 := by
  obtain ⟨hp, before, after, heq, hbefore⟩ := List.find?_eq_some_iff_append.mp h
  have hfind : m.find? e.1 = some e.2 := find?_eq_some.mpr (by rw [heq]; simp)
  refine ⟨hfind, ⟨contains_of_find? hfind, hp⟩, ?_⟩
  rintro k ⟨hk, hpk⟩
  obtain ⟨a, ha⟩ := Option.isSome_iff_exists.mp hk
  have hmem := find?_eq_some.mp ha
  have hs := m.sorted
  rw [heq] at hmem
  rw [Entries.Sorted, heq, List.pairwise_append, List.pairwise_cons] at hs
  rcases List.mem_append.mp hmem with hmem | hmem
  · have hno := hbefore _ hmem
    simp [hpk] at hno
  · rcases List.mem_cons.mp hmem with rfl | hmem
    · exact le_rfl
    · exact (hs.2.1.1 _ hmem).le

theorem entries_find?_eq_some {k : κ} :
    (m.entries.find? fun e => p e.1).map Prod.fst = some k ↔
      IsLeast {k | m.contains k = true ∧ p k = true} k := by
  constructor
  · intro h
    obtain ⟨e, he, rfl⟩ := Option.map_eq_some_iff.mp h
    exact (isLeast_of_entries_find? he).2
  · intro hk
    cases he : m.entries.find? fun e => p e.1 with
    | none =>
      have hno := entries_find?_eq_none.mp he k hk.1.1
      rw [hk.1.2] at hno
      cases hno
    | some e => exact congrArg some ((isLeast_of_entries_find? he).2.unique hk)

end Search

theorem begin?_eq_find? (m : OrderedMap κ α) : m.begin? = m.entries.find? fun _ => true := by
  unfold begin?
  cases m.entries <;> rfl

theorem begin?_eq_none {m : OrderedMap κ α} (h : m.begin? = none) (k : κ) : m.find? k = none := by
  rw [begin?_eq_find?] at h
  cases hk : m.find? k with
  | none => rfl
  | some a => cases (entries_find?_eq_none (p := fun _ => true)).mp h k (contains_of_find? hk)

theorem begin?_eq_some {m : OrderedMap κ α} {e : κ × α} (h : m.begin? = some e) :
    m.find? e.1 = some e.2 ∧ ∀ k a, m.find? k = some a → e.1 ≤ k := by
  rw [begin?_eq_find?] at h
  obtain ⟨hfind, -, hleast⟩ := isLeast_of_entries_find? (p := fun _ => true) h
  exact ⟨hfind, fun k a hk => hleast ⟨contains_of_find? hk, rfl⟩⟩

theorem next?_eq_none {m : OrderedMap κ α} {k : κ} (h : m.next? k = none) {j : κ} {a : α}
    (hj : m.find? j = some a) : j ≤ k := by
  have hno := (entries_find?_eq_none (p := fun j => k < j)).mp h j (contains_of_find? hj)
  simpa using hno

/-- Nothing between the key and the next entry is passed over. -/
theorem next?_eq_some {m : OrderedMap κ α} {k : κ} {e : κ × α} (h : m.next? k = some e) :
    k < e.1 ∧ m.find? e.1 = some e.2 ∧ ∀ j a, m.find? j = some a → k < j → e.1 ≤ j := by
  obtain ⟨hfind, ⟨-, hlt⟩, hleast⟩ := isLeast_of_entries_find? (p := fun j => k < j) h
  refine ⟨of_decide_eq_true hlt, hfind, fun j a hj hk => ?_⟩
  exact hleast ⟨contains_of_find? hj, decide_eq_true hk⟩

end OrderedMap
end Rockets
