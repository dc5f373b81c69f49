import Rockets.Bytes
import Rockets.OrderedMap

set_option autoImplicit false

/-!
# Query parameters

The loop that reads the arguments of a URI, fragment by fragment, into a map. A fragment is
copied into a buffer of fixed size, and a string is made of the buffer.
-/
namespace Rockets.Http

def maxQueryParamLength : ℕ := 4096

/-- `lws_hdr_copy_fragment` for the arguments: the value returned for the n-th fragment, and
the buffer afterwards. -/
abbrev CopyFragment := ℕ → ℤ × Bytes

def cString (buf : Bytes) : Bytes := buf.takeWhile (· ≠ 0)

def equals : Fin 256 := 61

def parameter (frag : Bytes) : Bytes × Bytes :=
  match frag.findIdx? (· = equals) with
  | some equalPos => (frag.take equalPos, frag.drop (equalPos + 1))
  | none => (frag, [])

namespace Channel
variable (copyFragment : CopyFragment)

/-- The loop from the n-th fragment on; nothing if the fuel does not suffice. -/
def readFragments : ℕ → ℕ → OrderedMap Bytes Bytes → Option (OrderedMap Bytes Bytes)
  | 0, _, _ => none
  | fuel + 1, n, query =>
    let (length, buf) := copyFragment n
    if length > 0 then
      let (key, value) := parameter (cString buf)
      readFragments fuel (n + 1) (query.emplace key value)
    else some query

def readQueryParameters (fuel : ℕ) : Option (OrderedMap Bytes Bytes) :=
  readFragments copyFragment fuel 0 ∅

end Channel

/-- What the code relies on: fragments that fit are copied with a NUL behind them, and past
the last one a negative number is returned. -/
structure CopiesFragments (copyFragment : CopyFragment) (fs : List Bytes) : Prop where
  copied : ∀ n f, fs[n]? = some f → f.length < maxQueryParamLength →
    (copyFragment n).1 = f.length ∧ ∃ rest, (copyFragment n).2 = f ++ 0 :: rest
  past : ∀ n, fs.length ≤ n → (copyFragment n).1 < 0

def key (f : Bytes) : Bytes := f.takeWhile (· ≠ equals)

def value (f : Bytes) : Bytes := (f.dropWhile (· ≠ equals)).drop 1

def firstValue (fs : List Bytes) (k : Bytes) : Option Bytes :=
  ((fs.filter (· ≠ [])).find? (key · = k)).map value

/-- The parameters of the fragments are read: with enough fuel the loop ends, and the map has
the keys of the fragments with their first values. -/
def ReadsQuery (copyFragment : CopyFragment) (fs : List Bytes) : Prop :=
  ∃ query, (∃ enough, ∀ fuel, enough ≤ fuel →
      Channel.readQueryParameters copyFragment fuel = some query) ∧
    ∀ k, query.find? k = firstValue fs k

/-- The first fragment with each key stands before all empty ones and has no NUL. -/
def Unobstructed (fs : List Bytes) : Prop :=
  ∀ before f after, fs = before ++ f :: after → f ≠ [] →
    (∀ g ∈ before, g ≠ [] → key g ≠ key f) → [] ∉ before ∧ 0 ∉ f

section Fragments
variable {f : Bytes}

theorem key_cons (b : Fin 256) (f : Bytes) :
    key (b :: f) = (if b = equals then [] else b :: key f) ∧
      value (b :: f) = if b = equals then f else value f := by
  unfold key value
  by_cases hb : b = equals <;> simp [hb]

theorem fragment_eq (f : Bytes) : f = key f ∧ value f = [] ∨ f = key f ++ equals :: value f := by
  induction f with
  | nil => exact .inl ⟨rfl, rfl⟩
  | cons b f ih =>
    obtain ⟨hkey, hvalue⟩ := key_cons b f
    rw [hkey, hvalue]
    split_ifs with hb
    · exact .inr (by rw [hb]; rfl)
    · exact ih.imp (And.imp_left (congrArg _)) (congrArg _)

theorem parameter_eq (f : Bytes) : parameter f = (key f, value f) := by
  induction f with
  | nil => rfl
  | cons b f ih =>
    obtain ⟨hkey, hvalue⟩ := key_cons b f
    unfold parameter at ih ⊢
    rw [hkey, hvalue, List.findIdx?_cons]
    by_cases hb : b = equals
    · rw [if_pos hb, if_pos hb, if_pos (decide_eq_true hb)]
      rfl
    · rw [if_neg hb, if_neg hb, if_neg (by simpa using hb)]
      cases hfind : f.findIdx? (· = equals) with
      | none =>
        rw [hfind] at ih
        obtain ⟨hkey', hvalue'⟩ := Prod.mk.inj ih
        rw [← hkey', ← hvalue']
        rfl
      | some equalPos =>
        rw [hfind] at ih
        obtain ⟨hkey', hvalue'⟩ := Prod.mk.inj ih
        rw [← hkey', ← hvalue']
        rfl

theorem equals_not_mem_key (f : Bytes) : equals ∉ key f := by
  intro h
  simpa using List.mem_takeWhile_imp h

theorem key_of_append {k : Bytes} (h : equals ∉ k) (v : Bytes) :
    key (k ++ equals :: v) = k ∧ value (k ++ equals :: v) = v := by
  have hall : ∀ b ∈ k, decide (b ≠ equals) = true := by
    intro b hb
    exact decide_eq_true (ne_of_mem_of_not_mem hb h)
  constructor
  · rw [key, List.takeWhile_append_of_pos hall, List.takeWhile_cons_of_neg (by simp),
      List.append_nil]
  · rw [value, List.dropWhile_append_of_pos hall, List.dropWhile_cons_of_neg (by simp)]
    rfl

theorem zero_not_mem_cString (f : Bytes) : 0 ∉ cString f := by
  intro h
  simpa using List.mem_takeWhile_imp h

theorem cString_of_not_mem (h : 0 ∉ f) : cString f = f := by
  refine List.takeWhile_eq_self_iff.mpr fun b hb => decide_eq_true ?_
  exact ne_of_mem_of_not_mem hb h

theorem cString_append {a : Bytes} (h : 0 ∉ a) (b : Bytes) : cString (a ++ b) = a ++ cString b := by
  refine List.takeWhile_append_of_pos fun x hx => decide_eq_true ?_
  exact ne_of_mem_of_not_mem hx h

theorem cString_buffer (f rest : Bytes) : cString (f ++ 0 :: rest) = cString f := by
  induction f with
  | nil => rfl
  | cons b f ih =>
    unfold cString at ih ⊢
    simp only [List.cons_append, List.takeWhile_cons, ih]

/-- Cutting a fragment at a NUL only shortens the value, unless the NUL is in the key. -/
theorem cut_fragment (h : 0 ∉ key f) :
    key (cString f) = key f ∧ value (cString f) = cString (value f) := by
  rcases fragment_eq f with ⟨hf, hvalue⟩ | hf
  · have hcut : cString f = f := cString_of_not_mem (hf ▸ h)
    rw [hcut, hvalue]
    exact ⟨rfl, rfl⟩
  · have hcut : cString f = key f ++ equals :: cString (value f) := by
      conv_lhs => rw [hf]
      rw [cString_append h, cString, List.takeWhile_cons_of_pos (by decide), cString]
    rw [hcut]
    exact key_of_append (equals_not_mem_key f) _

theorem zero_not_mem (hkey : 0 ∉ key f) (hvalue : cString (value f) = value f) : 0 ∉ f := by
  have hvalue' : 0 ∉ value f := hvalue ▸ zero_not_mem_cString _
  rcases fragment_eq f with ⟨hf, -⟩ | hf
  · rwa [hf]
  · rw [hf]
    simp [hkey, hvalue', show (0 : Fin 256) ≠ equals by decide]

end Fragments

section Loop
variable {copyFragment : CopyFragment} {fs : List Bytes}

def reached (fs : List Bytes) : List Bytes := fs.takeWhile (· ≠ [])

def emplaceAll (gs : List Bytes) (query : OrderedMap Bytes Bytes) : OrderedMap Bytes Bytes :=
  gs.foldl (fun query g => query.emplace (key (cString g)) (value (cString g))) query

theorem find?_emplaceAll (gs : List Bytes) (query : OrderedMap Bytes Bytes) (k : Bytes) :
    (emplaceAll gs query).find? k =
      (query.find? k).or ((gs.find? fun g => key (cString g) = k).map fun g => value (cString g)) := by
  induction gs generalizing query with
  | nil => simp [emplaceAll]
  | cons g gs ih =>
    have hstep : emplaceAll (g :: gs) query =
      emplaceAll gs (query.emplace (key (cString g)) (value (cString g))) := rfl
    rw [hstep, ih, OrderedMap.find?_emplace, List.find?_cons]
    by_cases hk : k = key (cString g)
    · subst hk
      cases query.find? (key (cString g)) <;> simp
    · rw [if_neg hk]
      simp [Ne.symm hk]

/-- The loop stops at the first empty fragment or past the last one. -/
theorem readFragments_eq (fs : List Bytes) (n : ℕ) (query : OrderedMap Bytes Bytes) (fuel : ℕ)
    (hfits : ∀ f ∈ fs, f.length < maxQueryParamLength)
    (hcopied : ∀ i f, fs[i]? = some f → f.length < maxQueryParamLength →
      (copyFragment (n + i)).1 = f.length ∧ ∃ rest, (copyFragment (n + i)).2 = f ++ 0 :: rest)
    (hpast : (copyFragment (n + fs.length)).1 < 0) (hfuel : fs.length < fuel) :
    Channel.readFragments copyFragment fuel n query = some (emplaceAll (reached fs) query) := by
  induction fs generalizing n query fuel with
  | nil =>
    obtain ⟨fuel, rfl⟩ := Nat.exists_eq_add_of_lt hfuel
    have hstop : ¬ (copyFragment n).1 > 0 := by
      have : (copyFragment n).1 < 0 := hpast
      omega
    simp only [Channel.readFragments, hstop, if_false]
    rfl
  | cons f fs ih =>
    obtain ⟨fuel, rfl⟩ : ∃ m, fuel = m + 1 := ⟨fuel - 1, by omega⟩
    obtain ⟨hlength, rest, hbuf⟩ := hcopied 0 f rfl (hfits f List.mem_cons_self)
    rw [Nat.add_zero] at hlength hbuf
    simp only [Channel.readFragments, hlength, hbuf, cString_buffer, parameter_eq]
    cases f with
    | nil => rfl
    | cons b f =>
      have hpositive : (((b :: f).length : ℕ) : ℤ) > 0 := by
        rw [List.length_cons]
        omega
      rw [if_pos hpositive, ih (n + 1)]
      · rfl
      · exact fun g hg => hfits g (List.mem_cons_of_mem _ hg)
      · intro i g hg hlt
        rw [Nat.add_right_comm, Nat.add_assoc]
        exact hcopied (i + 1) g hg hlt
      · rw [Nat.add_right_comm, Nat.add_assoc]
        exact hpast
      · rw [List.length_cons] at hfuel
        omega

end Loop

section Main
variable {copyFragment : CopyFragment} {fs before after : List Bytes} {f : Bytes}

def readValue (fs : List Bytes) (k : Bytes) : Option Bytes :=
  ((reached fs).find? fun g => key (cString g) = k).map fun g => value (cString g)

structure IsFirst (before : List Bytes) (f : Bytes) : Prop where
  nonempty : f ≠ []
  new : ∀ g ∈ before, g ≠ [] → key g ≠ key f

theorem exists_first {g : Bytes} (hg : g ∈ fs) (hne : g ≠ []) : ∃ before f after,
    fs = before ++ f :: after ∧ IsFirst before f ∧ key f = key g := by
  have hsome : (fs.find? fun f => decide (f ≠ [] ∧ key f = key g)).isSome :=
    List.find?_isSome.mpr ⟨g, hg, decide_eq_true ⟨hne, rfl⟩⟩
  obtain ⟨f, hf⟩ := Option.isSome_iff_exists.mp hsome
  obtain ⟨hyes, before, after, heq, hbefore⟩ := List.find?_eq_some_iff_append.mp hf
  obtain ⟨hnonempty, hkey⟩ := of_decide_eq_true hyes
  refine ⟨before, f, after, heq, ⟨hnonempty, fun g' hg' hne' heq' => ?_⟩, hkey⟩
  have hno := hbefore g' hg'
  simp [hne', heq'.trans hkey] at hno

theorem firstValue_of_isFirst (h : IsFirst before f) :
    firstValue (before ++ f :: after) (key f) = some (value f) := by
  have hbefore : (before.filter (· ≠ [])).find? (key · = key f) = none := by
    refine List.find?_eq_none.mpr fun g hg => ?_
    obtain ⟨hmem, hne⟩ := List.mem_filter.mp hg
    simpa using h.new g hmem (of_decide_eq_true hne)
  have hf : (f :: after).filter (· ≠ []) = f :: after.filter (· ≠ []) :=
    List.filter_cons_of_pos (decide_eq_true h.nonempty)
  rw [firstValue, List.filter_append, List.find?_append, hbefore, Option.none_or, hf,
    List.find?_cons, decide_eq_true rfl]
  rfl

theorem firstValue_eq_none {k : Bytes} (h : ∀ g ∈ fs, g ≠ [] → key g ≠ k) :
    firstValue fs k = none := by
  rw [firstValue, Option.map_eq_none_iff]
  refine List.find?_eq_none.mpr fun g hg => ?_
  obtain ⟨hmem, hne⟩ := List.mem_filter.mp hg
  simpa using h g hmem (of_decide_eq_true hne)

theorem mem_reached {g : Bytes} (h : g ∈ reached fs) : g ∈ fs ∧ g ≠ [] :=
  ⟨(List.takeWhile_sublist _).subset h, by simpa using List.mem_takeWhile_imp h⟩

theorem reached_of_not_mem (h : [] ∉ before) (after : List Bytes) :
    reached (before ++ after) = before ++ reached after :=
  List.takeWhile_append_of_pos fun _ hg => decide_eq_true (ne_of_mem_of_not_mem hg h)

theorem reached_of_mem (h : [] ∈ before) (after : List Bytes) :
    reached (before ++ after) = reached before := by
  induction before with
  | nil => cases h
  | cons g before ih =>
    unfold reached at ih ⊢
    rw [List.cons_append, List.takeWhile_cons, List.takeWhile_cons]
    split_ifs with hg
    · rcases List.mem_cons.mp h with rfl | hmem
      · simp at hg
      · rw [ih hmem]
    · rfl

/-- The loop takes the value of a fragment that is the first with its key, if no fragment
before it is empty. -/
theorem readValue_of_isFirst (h : IsFirst before f) (hkeys : ∀ g ∈ before, 0 ∉ key g)
    (hkey : 0 ∉ key f) (hreached : [] ∉ before) :
    readValue (before ++ f :: after) (key f) = some (cString (value f)) := by
  obtain ⟨hcut, hvalue⟩ := cut_fragment hkey
  have hbefore : before.find? (fun g => key (cString g) = key f) = none := by
    refine List.find?_eq_none.mpr fun g hg => ?_
    rw [(cut_fragment (hkeys g hg)).1]
    simpa using h.new g hg (ne_of_mem_of_not_mem hg hreached)
  have hf : reached (f :: after) = f :: reached after :=
    List.takeWhile_cons_of_pos (decide_eq_true h.nonempty)
  rw [readValue, reached_of_not_mem hreached, hf, List.find?_append, hbefore, Option.none_or,
    List.find?_cons, decide_eq_true hcut, Option.map_some, hvalue]

theorem unobstructed_iff_isFirst : Unobstructed fs ↔ ∀ before f after, fs = before ++ f :: after →
    IsFirst before f → [] ∉ before ∧ 0 ∉ f :=
  ⟨fun h before f after heq hf => h before f after heq hf.nonempty hf.new,
    fun h before f after heq hne hnew => h before f after heq ⟨hne, hnew⟩⟩

theorem zero_not_mem_keys (h : ∀ before f after, fs = before ++ f :: after →
    IsFirst before f → 0 ∉ key f) {g : Bytes} (hg : g ∈ fs) (hne : g ≠ []) : 0 ∉ key g := by
  obtain ⟨before, f, after, heq, hf, hkey⟩ := exists_first hg hne
  exact hkey ▸ h before f after heq hf

theorem zero_not_mem_key (h : 0 ∉ f) : 0 ∉ key f :=
  fun hmem => h ((List.takeWhile_sublist _).subset hmem)

/-- Where every key is read as its first occurrence has it, nothing stands in the way of a
fragment that comes first with its key. -/
theorem isFirst_of_readValue_eq (h : ∀ k, readValue fs k = firstValue fs k)
    (heq : fs = before ++ f :: after) (hf : IsFirst before f) : [] ∉ before ∧ 0 ∉ f := by
  have hread {before f after} (heq : fs = before ++ f :: after) (hf : IsFirst before f) :
      ∃ g ∈ reached fs, key (cString g) = key f := by
    have hsome := h (key f)
    rw [heq, firstValue_of_isFirst hf, ← heq] at hsome
    obtain ⟨g, hg, -⟩ := Option.map_eq_some_iff.mp hsome
    exact ⟨g, List.mem_of_find?_eq_some hg, by simpa using List.find?_some hg⟩
  have hclean {g : Bytes} (hg : g ∈ fs) (hne : g ≠ []) : 0 ∉ key g := by
    refine zero_not_mem_keys (fun before f after heq hf => ?_) hg hne
    obtain ⟨g, -, hkey⟩ := hread heq hf
    exact hkey ▸ zero_not_mem_key (zero_not_mem_cString g)
  have hkey : 0 ∉ key f := hclean (by simp [heq]) hf.nonempty
  have hbefore : [] ∉ before := by
    intro hmem
    obtain ⟨g, hg, hgf⟩ := hread heq hf
    obtain ⟨hgs, hne⟩ := mem_reached hg
    rw [heq, reached_of_mem hmem] at hg
    rw [(cut_fragment (hclean hgs hne)).1] at hgf
    exact hf.new g (mem_reached hg).1 hne hgf
  refine ⟨hbefore, zero_not_mem hkey ?_⟩
  have hvalue := h (key f)
  rw [heq, firstValue_of_isFirst hf, readValue_of_isFirst hf (fun g hg => ?_) hkey hbefore]
    at hvalue
  · exact Option.some.inj hvalue
  · exact hclean (by simp [heq, hg]) (ne_of_mem_of_not_mem hg hbefore)

/-- The fragments that come first are read whole, and the others are passed over. -/
theorem readValue_eq_of_isFirst (h : ∀ before f after, fs = before ++ f :: after →
    IsFirst before f → [] ∉ before ∧ 0 ∉ f) (k : Bytes) : readValue fs k = firstValue fs k := by
  have hclean {g : Bytes} (hg : g ∈ fs) (hne : g ≠ []) : 0 ∉ key g :=
    zero_not_mem_keys (fun before f after heq hf => zero_not_mem_key (h before f after heq hf).2)
      hg hne
  by_cases hk : ∃ g ∈ fs, g ≠ [] ∧ key g = k
  · obtain ⟨g, hg, hne, rfl⟩ := hk
    obtain ⟨before, f, after, heq, hf, hkey⟩ := exists_first hg hne
    obtain ⟨hbefore, hzero⟩ := h before f after heq hf
    rw [← hkey, heq, firstValue_of_isFirst hf,
      readValue_of_isFirst hf (fun g hg => ?_) (zero_not_mem_key hzero) hbefore,
      cString_of_not_mem]
    · exact fun hmem => hzero ((List.drop_sublist _ _).trans (List.dropWhile_sublist _) |>.subset hmem)
    · exact hclean (by simp [heq, hg]) (ne_of_mem_of_not_mem hg hbefore)
  · have hno {g : Bytes} (hg : g ∈ fs) (hne : g ≠ []) : key g ≠ k :=
      fun heq => hk ⟨g, hg, hne, heq⟩
    rw [firstValue_eq_none fun g => hno, readValue, Option.map_eq_none_iff]
    refine List.find?_eq_none.mpr fun g hg => ?_
    obtain ⟨hmem, hne⟩ := mem_reached hg
    rw [(cut_fragment (hclean hmem hne)).1]
    simpa using hno hmem hne

theorem readValue_eq_iff : (∀ k, readValue fs k = firstValue fs k) ↔ Unobstructed fs := by
  rw [unobstructed_iff_isFirst]
  exact ⟨fun h _ _ _ heq hf => isFirst_of_readValue_eq h heq hf, readValue_eq_of_isFirst⟩

theorem readQueryParameters_eq (h : CopiesFragments copyFragment fs)
    (hfits : ∀ f ∈ fs, f.length < maxQueryParamLength) {fuel : ℕ} (hfuel : fs.length + 1 ≤ fuel) :
    Channel.readQueryParameters copyFragment fuel = some (emplaceAll (reached fs) ∅) := by
  refine readFragments_eq fs 0 ∅ fuel hfits (fun i f hf hlt => ?_) ?_ hfuel
  · rw [Nat.zero_add]
    exact h.copied i f hf hlt
  · rw [Nat.zero_add]
    exact h.past fs.length (le_refl _)

/-- The parameters of a query are read if and only if the first fragment with each key stands
before all empty ones and has no NUL. -/
theorem readsQuery_iff (h : CopiesFragments copyFragment fs)
    (hfits : ∀ f ∈ fs, f.length < maxQueryParamLength) :
    ReadsQuery copyFragment fs ↔ Unobstructed fs := by
  have hfind (k : Bytes) : (emplaceAll (reached fs) ∅).find? k = readValue fs k := by
    rw [find?_emplaceAll, OrderedMap.find?_empty, Option.none_or]
    rfl
  rw [← readValue_eq_iff]
  constructor
  · rintro ⟨query, ⟨enough, hquery⟩, hvalues⟩ k
    have hsame := (readQueryParameters_eq h hfits (Nat.le_max_right enough _)).symm.trans
      (hquery _ (Nat.le_max_left _ _))
    rw [← hfind, Option.some.inj hsame]
    exact hvalues k
  · intro hvalues
    exact ⟨_, ⟨_, fun fuel hfuel => readQueryParameters_eq h hfits hfuel⟩,
      fun k => (hfind k).trans (hvalues k)⟩

def copyFragmentsOf (fs : List Bytes) : CopyFragment := fun n =>
  match fs[n]? with
  | some f => (f.length, f ++ [0])
  | none => (-1, [])

theorem copyFragmentsOf_copies (fs : List Bytes) : CopiesFragments (copyFragmentsOf fs) fs where
  copied n f hf _ := by
    simp only [copyFragmentsOf, hf]
    exact ⟨trivial, [], rfl⟩
  past n hn := by
    simp only [copyFragmentsOf, List.getElem?_eq_none hn]
    decide

theorem unobstructed_of_nonempty (h : [] ∉ fs) (hzero : ∀ f ∈ fs, 0 ∉ f) : Unobstructed fs := by
  rintro before f after rfl - -
  exact ⟨fun hmem => h (List.mem_append_left _ hmem), hzero f (by simp)⟩

/-- The query `a=1&b&a=2`. -/
def twiceFragments : List Bytes := [ascii "a=1", ascii "b", ascii "a=2"]

theorem twiceFragments_read : ReadsQuery (copyFragmentsOf twiceFragments) twiceFragments :=
  (readsQuery_iff (copyFragmentsOf_copies _) (by decide)).mpr
    (unobstructed_of_nonempty (by decide) (by decide))

/-- The query `a=1&&b=2`. -/
def gapFragments : List Bytes := [ascii "a=1", [], ascii "b=2"]

/-- What comes after an empty fragment is lost. -/
theorem gapFragments_lost : ¬ ReadsQuery (copyFragmentsOf gapFragments) gapFragments := by
  rintro ⟨query, ⟨enough, hquery⟩, hvalues⟩
  have hread := readQueryParameters_eq (copyFragmentsOf_copies gapFragments) (by decide)
    (Nat.le_max_right enough _)
  obtain rfl := Option.some.inj (hread.symm.trans (hquery _ (Nat.le_max_left _ _)))
  exact absurd (hvalues (ascii "b")) (by decide +kernel)

end Main
end Rockets.Http
